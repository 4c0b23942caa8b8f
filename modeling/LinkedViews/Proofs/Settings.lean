import LinkedViews.Message
import LinkedViews.Proofs.Decode.Record

/-!
Settings as JSON, and in messages.

Settings are read back from what they are written as, by themselves and out of the message that
they changed. They stand under two keys, and whatever else is there does not matter.
-/

namespace LinkedViews

namespace Settings

lemma ofJson_obj (members : List (String × Json)) :
    ofJson (.obj members) = (decode (.obj members)).mapError .mk := rfl

lemma decode_toJson (s : Settings) : decode s.toJson = .ok s := by
  have hverified : Decode.sequence Verified.decode (.arr (s.verified.map Verified.toJson)) =
      .ok s.verified := Decode.sequence_map fun _ _ => rfl
  show ((Decode.sequence Verified.decode (.arr (s.verified.map Verified.toJson))).map some >>=
    fun verified => .ok ⟨s.dropOnEdit, verified.getD []⟩) = .ok s
  rw [hverified]
  rfl

lemma ofJson_toJson (s : Settings) : ofJson s.toJson = .ok s := by
  rw [toJson, ofJson_obj, ← toJson, decode_toJson, Except.mapError]

/-- What an object is read as, or what is wrong with it, depends on the values of two keys. -/
lemma ofJson_congr {members members' : List (String × Json)}
    (hupdate : members'.lookup "updateOnChange" = members.lookup "updateOnChange")
    (hverified : members'.lookup "verifiedFunctions" = members.lookup "verifiedFunctions") :
    ofJson (.obj members') = ofJson (.obj members) := by
  simp only [ofJson_obj, decode, Decode.field?, hupdate, hverified]

end Settings

namespace Message

/-- The parameters of the message bring the settings. -/
def Announces (msg : Json) (s : Settings) : Prop :=
  ∃ params, msg.member? "params" = some params ∧ settingsOf params = .ok s

lemma announces_settingsChanged (s : Settings) : Announces (settingsChanged s) s :=
  ⟨_, rfl, s.ofJson_toJson⟩

/-- **Settings and their messages.** Settings are read back from what they are written as, and
from the message that they changed, which carries them as the server gets them at its start. An
object of settings may have any other keys, before, between and behind its own. And the message
about the choice of a function brings the settings that the choice leaves. -/
theorem settings_round_trip :
    (∀ s : Settings, Settings.ofJson s.toJson = .ok s) ∧
    (∀ s, Announces (settingsChanged s) s ∧
      ((settingsChanged s).member? "params").bind (·.member? "settings") =
        some (initialOptions s)) ∧
    (∀ (members members' : List (String × Json)),
      (∀ key ∈ ["updateOnChange", "verifiedFunctions"],
        members'.lookup key = members.lookup key) →
      Settings.ofJson (.obj members') = Settings.ofJson (.obj members)) ∧
    ∀ (s : Settings) (uri label : String),
      Announces (functionChosen s uri label).1 (functionChosen s uri label).2 := by
  refine ⟨Settings.ofJson_toJson, fun s => ⟨announces_settingsChanged s, rfl⟩, ?_,
    fun s uri label => announces_settingsChanged (s.choose uri label)⟩
  intro members members' h
  exact Settings.ofJson_congr (h _ (by decide)) (h _ (by decide))

/-- One document has three entries, two of them alike, and there are other keys on both sides. -/
theorem settings_round_trip_repeated :
    let s : Settings := ⟨true, [⟨"file:///é.c", "f"⟩, ⟨"file:///é.c", "g"⟩, ⟨"file:///é.c", "f"⟩]⟩
    let members := [("updateOnChange", Json.bool s.dropOnEdit),
      ("verifiedFunctions", .arr (s.verified.map Verified.toJson))]
    let members' := ("theme", Json.str "dark") :: members ++ [("verified", .null)]
    (∀ key ∈ ["updateOnChange", "verifiedFunctions"],
      members'.lookup key = members.lookup key) ∧
    Settings.ofJson (.obj members') = .ok s := by
  intro s members members'
  have hkeys : ∀ key ∈ ["updateOnChange", "verifiedFunctions"],
      members'.lookup key = members.lookup key := by
    rw [List.forall_mem_cons, List.forall_mem_singleton]
    exact ⟨rfl, rfl⟩
  refine ⟨hkeys, ?_⟩
  rw [settings_round_trip.2.2.1 members members' hkeys]
  exact settings_round_trip.1 s

end Message

end LinkedViews
