import RuleVote.Json.Decoder
/-!
# Values that are read

What holds of every value that the fields of a record can make holds of the
record (`RecordDecoder.Makes.of_decode`), whether it is read from an object or
from an array.
-/

namespace RuleVote

theorem Decoder.validated_eq_ok_iff {α β : Type} {inner : Decoder α} {check : α → Option β}
    {document : Document} {b : β} : validated inner check document = .ok b ↔
      ∃ a, inner document = .ok a ∧ check a = some b := by
  rw [validated, bind_eq_ok_iff]
  refine exists_congr fun a => and_congr_right fun _ => ?_
  cases check a with
  | none =>
    constructor <;> intro h <;> cases h
  | some b' =>
    constructor <;> intro h <;> cases h <;> rfl

namespace RecordDecoder

variable {α β : Type} {P : α → Prop} {Q : β → Prop}

/-- Every record that is made has a property. -/
structure Makes (r : RecordDecoder α) (P : α → Prop) : Prop where
  finish : ∀ {s a}, r.finish s = .ok a → P a
  fromItems : ∀ {tail items a rest}, r.fromItems tail items = .ok (a, rest) → P a

theorem makes_any (r : RecordDecoder α) : r.Makes fun _ => True :=
  ⟨fun _ => trivial, fun _ => trivial⟩

theorem makes_pure {a : α} (h : P a) : (pure a : RecordDecoder α).Makes P := by
  constructor
  · intro _ _ hfinish
    cases hfinish
    exact h
  · intro _ _ _ _ hitems
    cases hitems
    exact h

/-- **One field after another.** -/
theorem Makes.seq {f : RecordDecoder (α → β)} {x : RecordDecoder α}
    (hf : f.Makes fun g => ∀ a, P a → Q (g a)) (hx : x.Makes P) : (f <*> x).Makes Q := by
  constructor
  · intro s _ hfinish
    obtain ⟨g, hg, hfinish⟩ := bind_eq_ok_iff.1 hfinish
    obtain ⟨a, ha, hfinish⟩ := bind_eq_ok_iff.1 hfinish
    cases hfinish
    exact hf.finish hg a (hx.finish ha)
  · intro tail items _ _ hitems
    obtain ⟨⟨g, _⟩, hg, hitems⟩ := bind_eq_ok_iff.1 hitems
    obtain ⟨⟨a, _⟩, ha, hitems⟩ := bind_eq_ok_iff.1 hitems
    cases hitems
    exact hf.fromItems hg a (hx.fromItems ha)

theorem Makes.map {f : α → β} {x : RecordDecoder α} (hx : x.Makes P) (h : ∀ a, P a → Q (f a)) :
    (f <$> x).Makes Q :=
  (makes_pure h).seq hx

/-- What is read from an array is what its fields make of it. -/
theorem exists_fromItems {r : RecordDecoder α} {frame : Frame} {items : List Document}
    {tail : Option DocumentFault} {a : α} (h : r.ofItems frame items tail = .ok a) :
    ∃ rest, r.fromItems tail items = .ok (a, rest) := by
  unfold ofItems at h
  split at h
  · next hitems =>
    cases h
    exact ⟨_, hitems⟩
  · cases h
  · next hitems =>
    cases frame <;> cases h
    exact ⟨_, hitems⟩
  · cases h

/-- **A record that is read is one that its fields make.** -/
theorem Makes.of_decode {r : RecordDecoder α} (h : r.Makes P) {document : Document} {a : α}
    (hread : r.decode document = .ok a) : P a := by
  cases document with
  | object frame entries tail =>
    obtain ⟨_, -, hread⟩ := bind_eq_ok_iff.1 hread
    obtain ⟨s, -, hread⟩ := bind_eq_ok_iff.1 hread
    obtain ⟨_, -, hread⟩ := bind_eq_ok_iff.1 hread
    exact h.finish hread
  | array frame items tail =>
    obtain ⟨_, -, hread⟩ := bind_eq_ok_iff.1 hread
    obtain ⟨_, hitems⟩ := exists_fromItems hread
    exact h.fromItems hitems
  | _ => cases hread

end RecordDecoder

end RuleVote
