import Mathlib.Data.List.Infix
import Pikamux.Channel.Operation

/-!
# Channel — Keys

The rows of different operations, routes, launches and owners have different keys: a token and an
operation are canonical UUIDs, which have one length and no `:`.
-/

namespace Pikamux.Channel

open Std Support Json

/-- The key of the operation `id` of the launch `token`. -/
def opKey (token id : String) : String := "claude-channel:" ++ token ++ ":operation:" ++ id

/-- The key of the launch that owns the operation `id` of a conversation. -/
def ownerKey (thread id : String) : String := "claude-operation:" ++ thread ++ ":" ++ id

/-- A UUID in canonical form. -/
def Canonical (s : String) : Prop := Uuid.canonical s = some s

instance (s : String) : Decidable (Canonical s) := inferInstanceAs (Decidable (_ = _))

theorem parseUuid_eq_ok {s t : String} : parseUuid s = .ok t ↔ Uuid.canonical s = some t := by
  rw [parseUuid, context_eq_ok]

theorem Canonical.of_parse {s t : String} (h : Uuid.canonical s = some t) : Canonical t :=
  Uuid.canonical_canonical h

theorem tokenOperationKey_eq_ok {token id key : String} (hid : Canonical id) :
    tokenOperationKey token id = .ok key ↔ Canonical token ∧ key = opKey token id := by
  simp only [tokenOperationKey, bind_eq_ok, parseUuid_eq_ok, ensure_eq_ok, decide_eq_true_eq,
    pure_eq_ok]
  constructor
  · rintro ⟨_, ht, _, rfl, i, hi, rfl⟩
    rw [show i = id from Option.some.inj (hi.symm.trans hid)]
    exact ⟨ht, rfl⟩
  · rintro ⟨ht, rfl⟩
    exact ⟨token, ht, (), rfl, id, hid, rfl⟩

theorem operationOwnerKey_eq_ok {thread id key : String} (hid : Canonical id) :
    operationOwnerKey thread id = .ok key ↔ Canonical thread ∧ key = ownerKey thread id := by
  simp only [operationOwnerKey, bind_eq_ok, parseUuid_eq_ok, ensure_eq_ok, decide_eq_true_eq,
    pure_eq_ok]
  constructor
  · rintro ⟨_, ht, _, rfl, i, hi, rfl⟩
    rw [show i = id from Option.some.inj (hi.symm.trans hid)]
    exact ⟨ht, rfl⟩
  · rintro ⟨ht, rfl⟩
    exact ⟨thread, ht, (), rfl, id, hid, rfl⟩

/-! ### Different keys -/

theorem toList_append₂ (a b c : String) :
    (a ++ b ++ c).toList = a.toList ++ (b.toList ++ c.toList) := by
  simp only [String.toList_append, List.append_assoc]

theorem toList_append₃ (a b c d : String) :
    (a ++ b ++ c ++ d).toList = a.toList ++ (b.toList ++ (c.toList ++ d.toList)) := by
  simp only [String.toList_append, List.append_assoc]

section Different

variable {token token' thread id id' : String} {binding binding' : Binding}

/-- A part of known length is cut out of a key. -/
theorem append₃_inj {a b b' c d d' : String} (h : a ++ b ++ c ++ d = a ++ b' ++ c ++ d')
    (hb : Canonical b) (hb' : Canonical b') : b = b' ∧ d = d' := by
  have hl := congrArg String.toList h
  rw [toList_append₃, toList_append₃, List.append_cancel_left_eq] at hl
  have hlen : b.toList.length = b'.toList.length := by
    rw [Uuid.canonical_length hb, Uuid.canonical_length hb']
  obtain ⟨h₁, h₂⟩ := List.append_inj hl hlen
  rw [List.append_cancel_left_eq] at h₂
  exact ⟨String.toList_injective h₁, String.toList_injective h₂⟩

theorem opKey_inj (ht : Canonical token) (ht' : Canonical token') :
    opKey token id = opKey token' id' ↔ token = token' ∧ id = id' := by
  refine ⟨fun h => append₃_inj h ht ht', ?_⟩
  rintro ⟨rfl, rfl⟩
  rfl

/-- Keys of one launch begin differently from keys of one conversation. -/
theorem channel_ne_operation (l l' : List Char) :
    "claude-channel:".toList ++ l ≠ "claude-operation:".toList ++ l' := by
  intro h
  have hl := congrArg (fun s => s[7]?) h
  simp at hl

theorem opKey_ne_ownerKey : opKey token id ≠ ownerKey thread id' := by
  intro h
  exact channel_ne_operation _ _
    ((toList_append₃ ..).symm.trans ((congrArg String.toList h).trans (toList_append₃ ..)))

theorem ownerKey_ne_routeKey : ownerKey thread id ≠ routeKey binding := by
  intro h
  exact channel_ne_operation _ _
    ((toList_append₂ ..).symm.trans ((congrArg String.toList h).symm.trans (toList_append₃ ..)))

theorem ownerKey_ne_threadKey : ownerKey thread id ≠ threadKey binding := by
  intro h
  exact channel_ne_operation _ _
    ((toList_append₂ ..).symm.trans ((congrArg String.toList h).symm.trans (toList_append₃ ..)))

/-- A canonical id does not end like a key that ends in a word. -/
theorem append₃_ne_of_suffix {a b c a' b' word : String} (hid : Canonical id)
    (hw : ':' ∈ word.toList) (hlen : word.toList.length ≤ 36) :
    a ++ b ++ c ++ id ≠ a' ++ b' ++ word := by
  intro h
  have hl := congrArg String.toList h
  rw [toList_append₃, toList_append₂, ← List.append_assoc, ← List.append_assoc,
    ← List.append_assoc] at hl
  have hword : word.toList <:+ a'.toList ++ b'.toList ++ word.toList := List.suffix_append ..
  rw [← hl] at hword
  have hsuffix := List.suffix_of_suffix_length_le hword (List.suffix_append _ id.toList)
    (hlen.trans (Uuid.canonical_length hid).ge)
  exact Uuid.canonical_no_colon hid (hsuffix.subset hw)

theorem opKey_ne_routeKey (hid : Canonical id) : opKey token id ≠ routeKey binding :=
  append₃_ne_of_suffix hid (by decide) (by decide)

theorem opKey_ne_threadKey (hid : Canonical id) : opKey token id ≠ threadKey binding :=
  append₃_ne_of_suffix hid (by decide) (by decide)

theorem getLast?_append₂ {a b c : String} {l : Char} (h : c.toList.getLast? = some l) :
    (a ++ b ++ c).toList.getLast? = some l := by
  rw [toList_append₂, List.getLast?_append, List.getLast?_append, h]
  rfl

theorem routeKey_ne_threadKey : routeKey binding ≠ threadKey binding' := by
  intro h
  have hroute : (routeKey binding).toList.getLast? = some 'e' := getLast?_append₂ (by decide)
  have hthread : (threadKey binding').toList.getLast? = some 'd' := getLast?_append₂ (by decide)
  generalize routeKey binding = key at h hroute
  subst h
  exact absurd (hroute.symm.trans hthread) (by decide)

theorem routeKey_inj : routeKey binding = routeKey binding' ↔ binding.token = binding'.token := by
  constructor
  · intro h
    have hl := (toList_append₂ ..).symm.trans ((congrArg String.toList h).trans (toList_append₂ ..))
    rw [List.append_cancel_left_eq, List.append_cancel_right_eq] at hl
    exact String.toList_injective hl
  · intro h
    exact congrArg (fun token => "claude-channel:" ++ token ++ ":route") h

end Different

end Pikamux.Channel
