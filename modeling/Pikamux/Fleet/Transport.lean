import Mathlib.Data.List.Dedup
import Pikamux.Fleet.Board
import Pikamux.Json.Sizes

/-!
# Fleet — Transport

`bound_snapshot_for_transport` makes a local snapshot fit a message.  It starts from the snapshot
without rows and admits rows while they fit: first the rows of experts, which are those that have a
profile, each with its profile and its card; then the other watched rows; then the cards that are
left.  What is left out is counted in notices.

* `considerExpert_step`, `considerOrdinary_step`, `considerCard_step` — what one offer does.
* `Admitted` — what holds of a selection at any time: its bytes are counted, it has no identity
  twice, and what it has belongs to its rows.
* `Offered` — what holds of the experts' rows that were offered: they are held, or their identity is
  counted as omitted.
-/

namespace Pikamux.Fleet

open Support Json

inductive FleetErrorKind where
  | invalidRequest
  | incompatible
  | quarantined
  | unreachable
  | authentication
  | missing
  | notFound
  | outcomeUnknown
  | error
  deriving DecidableEq, Repr

structure FleetError where
  kind : FleetErrorKind
  message : String
  deriving DecidableEq

def maxMessageBytes : Nat := maxRemoteSnapshotBytes

def maxSnapshotSessions : Nat := 2000

def maxSnapshotProfiles : Nat := 2000

def maxSnapshotCards : Nat := 2000

def noticeReserveBytes : Nat := 64 * 1024

def payloadBudget : Nat := maxMessageBytes - noticeReserveBytes

def wireValueKey (value : Value) : Option (String × String) := rowKey value

/-- A value in an array, with its comma. -/
def valueCost (value : Value) : Nat := value.toText.utf8ByteSize + 1

/-! ### The selection -/

/-- The loop's variables.  The sets of keys are lists without repetition, in the order in which the
keys came. -/
structure Selection where
  watched : List Value := []
  experts : List Value := []
  profiles : List Value := []
  cards : List Value := []
  keys : List (String × String) := []
  cardKeys : List (String × String) := []
  expertKeys : List (String × String) := []
  omitted : List (String × String) := []
  usedBytes : Nat

def Selection.rows (s : Selection) : List Value := s.watched ++ s.experts

variable (object : Value)

/-- The key of an expert's row and the expert's profile. -/
def expertOf (row : Value) : Option ((String × String) × Value) := do
  let key ← wireValueKey row
  let profile ← keyed object "profiles" key
  return (key, profile)

def expertCost (row profile : Value) (card : Option Value) : Nat :=
  valueCost row + valueCost profile + (card.map valueCost).getD 0

/-- There is room for the row of an expert. -/
def Selection.fitsExpert (s : Selection) (row profile : Value) (card : Option Value) : Bool :=
  s.watched.length + s.experts.length < maxSnapshotSessions &&
    s.profiles.length < maxSnapshotProfiles &&
    card.all (fun _ => s.cards.length < maxSnapshotCards) &&
    s.usedBytes + expertCost row profile card ≤ payloadBudget

def Selection.admitExpert (s : Selection) (isUntracked : Bool) (row : Value)
    (key : String × String) (profile : Value) (card : Option Value) : Selection :=
  { s with
    watched := if isUntracked then s.watched else s.watched ++ [row]
    experts := if isUntracked then s.experts ++ [row] else s.experts
    profiles := s.profiles ++ [profile]
    cards := s.cards ++ card.toList
    keys := s.keys ++ [key]
    cardKeys := if card.isSome then s.cardKeys ++ [key] else s.cardKeys
    expertKeys := s.expertKeys ++ [key]
    usedBytes := s.usedBytes + expertCost row profile card }

/-- An offer is a row, and whether it is untracked. -/
def considerExpert (s : Selection) (offer : Bool × Value) : Selection :=
  match expertOf object offer.2 with
  | none => s
  | some (key, profile) =>
      if s.keys.contains key then s
      else
        let card := keyed object "cards" key
        if s.fitsExpert offer.2 profile card then
          s.admitExpert offer.1 offer.2 key profile card
        else { s with omitted := s.omitted.insert key }

def considerOrdinary (s : Selection) (row : Value) : Selection :=
  match wireValueKey row with
  | none => s
  | some key =>
      if s.keys.contains key || (keyed object "profiles" key).isSome then s
      else if maxSnapshotSessions ≤ s.watched.length + s.experts.length ||
          payloadBudget < s.usedBytes + valueCost row then s
      else { s with
        watched := s.watched ++ [row]
        keys := s.keys ++ [key]
        usedBytes := s.usedBytes + valueCost row }

def considerCard (s : Selection) (key : String × String) : Selection :=
  if s.cardKeys.contains key then s
  else match keyed object "cards" key with
    | none => s
    | some card =>
        if maxSnapshotCards ≤ s.cards.length ||
            payloadBudget < s.usedBytes + valueCost card then s
        else { s with cards := s.cards ++ [card], usedBytes := s.usedBytes + valueCost card }

/-- The order of keys in a `BTreeSet`. -/
def keyLe (a b : String × String) : Bool := a.1 < b.1 || (a.1 = b.1 && a.2 ≤ b.2)

/-- Experts first, then the other keys in order. -/
def Selection.cardOrder (s : Selection) : List (String × String) :=
  s.expertKeys ++ (s.keys.mergeSort keyLe).filter fun key => !s.expertKeys.contains key

/-! ### The snapshot -/

/-- Untracked rows are offered first. -/
def offers : List (Bool × Value) :=
  (fieldItems object "expert_sessions").map (true, ·) ++
    (fieldItems object "sessions").map (false, ·)

def selectExperts (usedBytes : Nat) (offers : List (Bool × Value)) : Selection :=
  offers.foldl (considerExpert object) { usedBytes }

def select (usedBytes : Nat) : Selection :=
  let s := selectExperts object usedBytes (offers object)
  let s := (fieldItems object "sessions").foldl (considerOrdinary object) s
  s.cardOrder.foldl (considerCard object) s

def rowFields : List String :=
  ["sessions", "expert_sessions", "profiles", "cards", "directory_notices"]

/-- The fields of the snapshot without its rows. -/
def envelope (fields : List (String × Value)) : List (String × Value) :=
  let base := fields.filter fun f => !rowFields.contains f.1
  let base := Value.insertField "sessions" (.array []) base
  let base := Value.insertField "profiles" (.array []) base
  let base := Value.insertField "cards" (.array []) base
  if (fields.lookup "expert_sessions").isSome then
    Value.insertField "expert_sessions" (.array []) base
  else base

/-- `{n} expert card(s) …` -/
def expertNotice (n : Nat) : Value :=
  .object [("kind", .string "expert-directory-incomplete"),
    ("message", .string (toString n ++
      " expert card(s) omitted by the remote snapshot safety budget")),
    ("omitted_rows", .number (.posInt n))]

def snapshotNotice (n : Nat) : Value :=
  .object [("kind", .string "snapshot-incomplete"),
    ("message", .string (toString n ++
      " watched conversation(s) omitted by the remote snapshot safety budget")),
    ("omitted_rows", .number (.posInt n))]

/-- `usize::saturating_add` -/
def saturatingAdd (a b : Nat) : Nat := min (a + b) (2 ^ 64 - 1)

def notices (s : Selection) : List Value :=
  let retainedRows := s.watched.length + s.experts.length
  let omittedRows := saturatingAdd (fieldItems object "sessions").length
    (fieldItems object "expert_sessions").length - retainedRows
  let ordinaryOmitted := omittedRows - s.omitted.length
  (if s.omitted.isEmpty then [] else [expertNotice s.omitted.length]) ++
    if 0 < ordinaryOmitted then [snapshotNotice ordinaryOmitted] else []

/-- The snapshot with the rows that were selected. -/
def boundedFields (fields : List (String × Value)) (s : Selection) : List (String × Value) :=
  let result := envelope fields
  let result := Value.insertField "sessions" (.array s.watched) result
  let result := Value.insertField "profiles" (.array s.profiles) result
  let result := Value.insertField "cards" (.array s.cards) result
  let result := if (fields.lookup "expert_sessions").isSome then
    Value.insertField "expert_sessions" (.array s.experts) result else result
  if (notices (.object fields) s).isEmpty then result
  else Value.insertField "directory_notices" (.array (notices (.object fields) s)) result

def envelopeBytes (fields : List (String × Value)) : Nat :=
  (Value.object (envelope fields)).toText.utf8ByteSize

def boundSnapshotForTransport (value : Value) : Except FleetError Value := do
  let fields ← context ⟨.error, "Local fleet snapshot is not an object"⟩ value.asObject
  let s := select value (envelopeBytes fields)
  let result := Value.object (boundedFields fields s)
  ensure (result.toText.utf8ByteSize ≤ maxMessageBytes)
    ⟨.incompatible, "Bounded fleet snapshot still exceeds the transport safety limit"⟩
  return result

/-! ### One offer -/

section Steps

variable {object} {s : Selection}

/-- The row of an expert is passed over, admitted or refused. -/
inductive ExpertStep (object : Value) (s : Selection) (offer : Bool × Value) :
    Selection → Prop where
  | none (h : expertOf object offer.2 = none) : ExpertStep object s offer s
  | again {key : String × String} {profile : Value}
      (h : expertOf object offer.2 = some (key, profile)) (hkey : key ∈ s.keys) :
      ExpertStep object s offer s
  | accept {key : String × String} {profile : Value}
      (h : expertOf object offer.2 = some (key, profile)) (hkey : key ∉ s.keys)
      (hfits : s.fitsExpert offer.2 profile (keyed object "cards" key) = true) :
      ExpertStep object s offer
        (s.admitExpert offer.1 offer.2 key profile (keyed object "cards" key))
  | refuse {key : String × String} {profile : Value}
      (h : expertOf object offer.2 = some (key, profile)) (hkey : key ∉ s.keys)
      (hfits : s.fitsExpert offer.2 profile (keyed object "cards" key) = false) :
      ExpertStep object s offer { s with omitted := s.omitted.insert key }

theorem considerExpert_step (s : Selection) (offer : Bool × Value) :
    ExpertStep object s offer (considerExpert object s offer) := by
  rw [considerExpert]
  cases h : expertOf object offer.2 with
  | none => exact .none h
  | some found =>
      obtain ⟨key, profile⟩ := found
      simp only
      by_cases hkey : key ∈ s.keys
      · rw [if_pos (List.contains_iff_mem.mpr hkey)]
        exact .again h hkey
      · rw [if_neg (by simpa using hkey)]
        by_cases hfits : s.fitsExpert offer.2 profile (keyed object "cards" key) = true
        · rw [if_pos hfits]
          exact .accept h hkey hfits
        · rw [if_neg hfits]
          exact .refuse h hkey (by simpa using hfits)

/-- A watched row without a profile is passed over or admitted. -/
inductive OrdinaryStep (object : Value) (s : Selection) (row : Value) : Selection → Prop where
  | skip : OrdinaryStep object s row s
  | accept {key : String × String} (h : wireValueKey row = some key) (hkey : key ∉ s.keys)
      (hprofile : keyed object "profiles" key = none)
      (hcount : s.watched.length + s.experts.length < maxSnapshotSessions)
      (hbytes : s.usedBytes + valueCost row ≤ payloadBudget) :
      OrdinaryStep object s row { s with
        watched := s.watched ++ [row]
        keys := s.keys ++ [key]
        usedBytes := s.usedBytes + valueCost row }

theorem considerOrdinary_step (s : Selection) (row : Value) :
    OrdinaryStep object s row (considerOrdinary object s row) := by
  rw [considerOrdinary]
  cases h : wireValueKey row with
  | none => exact .skip
  | some key =>
      simp only
      split
      · exact .skip
      case isFalse hfree =>
        simp only [Bool.or_eq_true, not_or, List.contains_iff_mem, Bool.not_eq_true,
          Option.isSome_eq_false_iff, Option.isNone_iff_eq_none] at hfree
        split
        · exact .skip
        case isFalse hroom =>
          simp only [Bool.or_eq_true, not_or, decide_eq_true_eq, Nat.not_le, Nat.not_lt] at hroom
          exact .accept h hfree.1 hfree.2 hroom.1 hroom.2

inductive CardStep (object : Value) (s : Selection) (key : String × String) : Selection → Prop where
  | skip : CardStep object s key s
  | accept {card : Value} (h : keyed object "cards" key = some card)
      (hbytes : s.usedBytes + valueCost card ≤ payloadBudget) :
      CardStep object s key { s with
        cards := s.cards ++ [card], usedBytes := s.usedBytes + valueCost card }

theorem considerCard_step (s : Selection) (key : String × String) :
    CardStep object s key (considerCard object s key) := by
  rw [considerCard]
  split
  · exact .skip
  · cases h : keyed object "cards" key with
    | none => exact .skip
    | some card =>
        simp only
        split
        · exact .skip
        case isFalse hroom =>
          simp only [Bool.or_eq_true, not_or, decide_eq_true_eq, Nat.not_le, Nat.not_lt] at hroom
          exact .accept h hroom.2

end Steps

/-! ### What is held -/

theorem wireValueKey_keyed {field : String} {key : String × String} {value : Value}
    (h : keyed object field key = some value) : wireValueKey value = some key := by
  simpa [wireValueKey] using List.find?_some h

theorem expertOf_eq_some {row profile : Value} {key : String × String} :
    expertOf object row = some (key, profile) ↔
      wireValueKey row = some key ∧ keyed object "profiles" key = some profile := by
  constructor
  · intro h
    obtain ⟨found, hkey, h⟩ := Option.bind_eq_some_iff.mp h
    obtain ⟨value, hprofile, h⟩ := Option.bind_eq_some_iff.mp h
    cases h
    exact ⟨hkey, hprofile⟩
  · rintro ⟨hkey, hprofile⟩
    simp [expertOf, hkey, hprofile]

def costs (values : List Value) : Nat := (values.map valueCost).sum

structure Admitted (base : Nat) (s : Selection) : Prop where
  bytes : s.usedBytes = base + costs s.watched + costs s.experts + costs s.profiles + costs s.cards
  budget : s.usedBytes ≤ payloadBudget
  count : s.watched.length + s.experts.length ≤ maxSnapshotSessions
  distinct : s.keys.Nodup
  rows : (s.rows.map wireValueKey).Perm (s.keys.map some)
  profiles : ∀ profile ∈ s.profiles, ∃ key ∈ s.keys, wireValueKey profile = some key
  cards : ∀ card ∈ s.cards, ∃ key ∈ s.keys, wireValueKey card = some key
  carries : ∀ key ∈ s.keys, ∀ profile, keyed object "profiles" key = some profile →
    profile ∈ s.profiles
  expertKeys : ∀ key ∈ s.expertKeys, key ∈ s.keys

section Admitted

variable {object} {base : Nat} {s s' : Selection}

theorem costs_append (xs ys : List Value) : costs (xs ++ ys) = costs xs + costs ys := by
  simp [costs]

theorem costs_singleton (x : Value) : costs [x] = valueCost x := by
  simp [costs]

theorem Admitted.init (h : base ≤ payloadBudget) : Admitted object base { usedBytes := base } where
  bytes := by simp [costs]
  budget := h
  count := by simp [maxSnapshotSessions]
  distinct := List.nodup_nil
  rows := .nil
  profiles := by simp
  cards := by simp
  carries := by simp
  expertKeys := by simp

theorem Admitted.expert {offer : Bool × Value} (h : Admitted object base s)
    (hstep : ExpertStep object s offer s') : Admitted object base s' := by
  cases hstep with
  | none => exact h
  | again => exact h
  | refuse => exact { h with }
  | @accept key profile hexpert hkey hfits =>
      obtain ⟨hrow, hprofile⟩ := (expertOf_eq_some object).mp hexpert
      simp only [Selection.fitsExpert, Bool.and_eq_true, decide_eq_true_eq] at hfits
      obtain ⟨⟨⟨hcount, -⟩, -⟩, hbudget⟩ := hfits
      have hcard : costs (keyed object "cards" key).toList =
          ((keyed object "cards" key).map valueCost).getD 0 := by
        cases keyed object "cards" key with
        | none => rfl
        | some card => simp [costs]
      have hbytes := h.bytes
      refine ⟨?_, hbudget, ?_, ?_, ?_, ?_, ?_, ?_, ?_⟩
      · simp only [Selection.admitExpert, expertCost, costs_append, hcard]
        split
        · simp only [costs_append, costs_singleton]
          omega
        · simp only [costs_append, costs_singleton]
          omega
      · simp only [Selection.admitExpert]
        split
        · simp only [List.length_append, List.length_singleton]
          omega
        · simp only [List.length_append, List.length_singleton]
          omega
      · exact List.nodup_append.mpr ⟨h.distinct, List.nodup_singleton key, fun a ha b hb hab =>
          hkey (List.mem_singleton.mp hb ▸ hab ▸ ha)⟩
      · have hrows : (s.admitExpert offer.1 offer.2 key profile
            (keyed object "cards" key)).rows.Perm (s.rows ++ [offer.2]) := by
          simp only [Selection.rows, Selection.admitExpert]
          split
          · rw [List.append_assoc]
          · rw [List.append_assoc, List.append_assoc]
            exact List.perm_append_comm.append_left s.watched
        refine (hrows.map wireValueKey).trans ?_
        rw [List.map_append]
        simp only [Selection.admitExpert, List.map_append, List.map_cons, List.map_nil, hrow]
        exact h.rows.append_right [some key]
      · intro value hvalue
        rcases List.mem_append.mp hvalue with hold | hnew
        · obtain ⟨k, hk, hkey⟩ := h.profiles value hold
          exact ⟨k, List.mem_append_left _ hk, hkey⟩
        · rw [List.mem_singleton.mp hnew]
          exact ⟨key, by simp [Selection.admitExpert], wireValueKey_keyed object hprofile⟩
      · intro value hvalue
        rcases List.mem_append.mp hvalue with hold | hnew
        · obtain ⟨k, hk, hkey⟩ := h.cards value hold
          exact ⟨k, List.mem_append_left _ hk, hkey⟩
        · exact ⟨key, by simp [Selection.admitExpert],
            wireValueKey_keyed object (Option.mem_toList.mp hnew)⟩
      · intro k hk value hvalue
        rcases List.mem_append.mp hk with hold | hnew
        · exact List.mem_append_left _ (h.carries k hold value hvalue)
        · rw [List.mem_singleton.mp hnew, hprofile] at hvalue
          cases hvalue
          exact List.mem_append_right _ List.mem_cons_self
      · intro k hk
        rcases List.mem_append.mp hk with hold | hnew
        · exact List.mem_append_left _ (h.expertKeys k hold)
        · exact List.mem_append_right _ hnew

theorem Admitted.ordinary {row : Value} (h : Admitted object base s)
    (hstep : OrdinaryStep object s row s') : Admitted object base s' := by
  cases hstep with
  | skip => exact h
  | @accept key hrow hkey hprofile hcount hbudget =>
      have hbytes := h.bytes
      refine ⟨?_, hbudget, ?_, ?_, ?_, ?_, ?_, ?_, ?_⟩
      · simp only [costs_append, costs_singleton]
        omega
      · simp only [List.length_append, List.length_singleton]
        omega
      · exact List.nodup_append.mpr ⟨h.distinct, List.nodup_singleton key, fun a ha b hb hab =>
          hkey (List.mem_singleton.mp hb ▸ hab ▸ ha)⟩
      · have hrows : ((s.watched ++ [row]) ++ s.experts).Perm (s.rows ++ [row]) := by
          rw [Selection.rows, List.append_assoc, List.append_assoc]
          exact List.perm_append_comm.append_left s.watched
        refine (hrows.map wireValueKey).trans ?_
        simp only [List.map_append, List.map_cons, List.map_nil, hrow]
        exact h.rows.append_right [some key]
      · intro value hvalue
        obtain ⟨k, hk, hkey⟩ := h.profiles value hvalue
        exact ⟨k, List.mem_append_left _ hk, hkey⟩
      · intro value hvalue
        obtain ⟨k, hk, hkey⟩ := h.cards value hvalue
        exact ⟨k, List.mem_append_left _ hk, hkey⟩
      · intro k hk value hvalue
        rcases List.mem_append.mp hk with hold | hnew
        · exact h.carries k hold value hvalue
        · rw [List.mem_singleton.mp hnew, hprofile] at hvalue
          cases hvalue
      · intro k hk
        exact List.mem_append_left _ (h.expertKeys k hk)

theorem Admitted.card {key : String × String} (h : Admitted object base s) (hkey : key ∈ s.keys)
    (hstep : CardStep object s key s') : Admitted object base s' := by
  cases hstep with
  | skip => exact h
  | @accept card hcard hbudget =>
      have hbytes := h.bytes
      refine { h with bytes := ?_, budget := hbudget, cards := ?_ }
      · simp only [costs_append, costs_singleton]
        omega
      · intro value hvalue
        rcases List.mem_append.mp hvalue with hold | hnew
        · exact h.cards value hold
        · rw [List.mem_singleton.mp hnew]
          exact ⟨key, hkey, wireValueKey_keyed object hcard⟩

end Admitted

/-! ### What was offered -/

/-- A row with a profile. -/
def isExpert (row : Value) : Bool := (expertOf object row).isSome

structure Offered (offered : List (Bool × Value)) (s : Selection) : Prop where
  covered : ∀ offer ∈ offered, ∀ key profile, expertOf object offer.2 = some (key, profile) →
    key ∈ s.keys ∨ key ∈ s.omitted
  omitted : ∀ key ∈ s.omitted, ∃ offer ∈ offered,
    (expertOf object offer.2).map Prod.fst = some key
  distinct : s.omitted.Nodup
  held : ∀ row ∈ s.rows, isExpert object row = true
  keys : ∀ key ∈ s.keys, (keyed object "profiles" key).isSome = true
  watched : s.watched.Sublist (((offered.filter fun o => !o.1).map Prod.snd).filter
    (isExpert object))
  experts : s.experts.Sublist ((offered.filter fun o => o.1).map Prod.snd)
  count : s.rows.length + s.omitted.length ≤
    (offered.filter fun o => isExpert object o.2).length

section Offered

variable {object} {base : Nat} {offered : List (Bool × Value)} {s s' : Selection}

/-- One more offer that changes nothing. -/
theorem Offered.pass {offer : Bool × Value} (h : Offered object offered s)
    (hcovered : ∀ key profile, expertOf object offer.2 = some (key, profile) →
      key ∈ s.keys ∨ key ∈ s.omitted) : Offered object (offered ++ [offer]) s where
  covered := by
    intro o ho key profile hexpert
    rcases List.mem_append.mp ho with hold | hnew
    · exact h.covered o hold key profile hexpert
    · rw [List.mem_singleton.mp hnew] at hexpert
      exact hcovered key profile hexpert
  omitted := by
    intro key hkey
    obtain ⟨o, ho, hfound⟩ := h.omitted key hkey
    exact ⟨o, List.mem_append_left _ ho, hfound⟩
  distinct := h.distinct
  held := h.held
  keys := h.keys
  watched := h.watched.trans (by simp)
  experts := h.experts.trans (by simp)
  count := h.count.trans (by simp)

theorem Offered.accept {offer : Bool × Value} {key : String × String} {profile : Value}
    (h : Offered object offered s) (hexpert : expertOf object offer.2 = some (key, profile)) :
    Offered object (offered ++ [offer])
      (s.admitExpert offer.1 offer.2 key profile (keyed object "cards" key)) where
  covered := by
    intro o ho k value hfound
    rcases List.mem_append.mp ho with hold | hnew
    · exact (h.covered o hold k value hfound).imp_left (List.mem_append_left _)
    · rw [List.mem_singleton.mp hnew, hexpert] at hfound
      cases hfound
      exact .inl (List.mem_append_right _ List.mem_cons_self)
  omitted := by
    intro k hk
    obtain ⟨o, ho, hfound⟩ := h.omitted k hk
    exact ⟨o, List.mem_append_left _ ho, hfound⟩
  distinct := h.distinct
  held := by
    intro row hrow
    have hcases : row ∈ s.rows ∨ row = offer.2 := by
      simp only [Selection.rows, Selection.admitExpert] at hrow ⊢
      split at hrow <;> simp only [List.mem_append, List.mem_singleton] at hrow ⊢ <;> tauto
    rcases hcases with hold | rfl
    · exact h.held row hold
    · simp [isExpert, hexpert]
  keys := by
    intro k hk
    rcases List.mem_append.mp hk with hold | hnew
    · exact h.keys k hold
    · rw [List.mem_singleton.mp hnew, ((expertOf_eq_some object).mp hexpert).2]
      rfl
  watched := by
    have hrow : isExpert object offer.2 = true := by simp [isExpert, hexpert]
    cases hside : offer.1 with
    | true => simpa [Selection.admitExpert, hside] using h.watched
    | false => simpa [Selection.admitExpert, hside, hrow] using h.watched
  experts := by
    cases hside : offer.1 with
    | true => simpa [Selection.admitExpert, hside] using h.experts
    | false => simpa [Selection.admitExpert, hside] using h.experts
  count := by
    have hrow : isExpert object offer.2 = true := by simp [isExpert, hexpert]
    have hcount := h.count
    have hlength : (s.admitExpert offer.1 offer.2 key profile
        (keyed object "cards" key)).rows.length = s.rows.length + 1 := by
      simp only [Selection.rows, Selection.admitExpert]
      split
      · simp [Nat.add_assoc]
      · simp only [List.length_append, List.length_singleton]
        omega
    rw [hlength]
    simp only [List.filter_append, List.length_append, List.filter_cons, hrow, if_true,
      List.filter_nil, List.length_singleton, Selection.admitExpert]
    omega

theorem Offered.refuse {offer : Bool × Value} {key : String × String} {profile : Value}
    (h : Offered object offered s) (hexpert : expertOf object offer.2 = some (key, profile)) :
    Offered object (offered ++ [offer]) { s with omitted := s.omitted.insert key } where
  covered := by
    intro o ho k value hfound
    rcases List.mem_append.mp ho with hold | hnew
    · exact (h.covered o hold k value hfound).imp_right List.mem_insert_of_mem
    · rw [List.mem_singleton.mp hnew, hexpert] at hfound
      cases hfound
      exact .inr List.mem_insert_self
  omitted := by
    intro k hk
    rcases List.mem_insert_iff.mp hk with rfl | hold
    · exact ⟨offer, by simp, by simp [hexpert]⟩
    · obtain ⟨o, ho, hfound⟩ := h.omitted k hold
      exact ⟨o, List.mem_append_left _ ho, hfound⟩
  distinct := h.distinct.insert
  held := h.held
  keys := h.keys
  watched := h.watched.trans (by simp)
  experts := h.experts.trans (by simp)
  count := by
    have hrow : isExpert object offer.2 = true := by simp [isExpert, hexpert]
    have hcount := h.count
    have hlength : (s.omitted.insert key).length ≤ s.omitted.length + 1 := by
      by_cases hmem : key ∈ s.omitted
      · rw [List.insert_of_mem hmem]
        omega
      · rw [List.length_insert_of_not_mem hmem]
    simp only [List.filter_append, List.length_append, List.filter_cons, hrow, if_true,
      List.filter_nil, List.length_singleton, Selection.rows] at hcount ⊢
    omega

theorem Offered.concat {offer : Bool × Value} (h : Offered object offered s)
    (hstep : ExpertStep object s offer s') : Offered object (offered ++ [offer]) s' := by
  cases hstep with
  | none hnone => exact h.pass fun key profile hexpert => by simp [hnone] at hexpert
  | again hexpert hkey =>
      refine h.pass fun key profile hfound => ?_
      rw [hexpert] at hfound
      cases hfound
      exact .inl hkey
  | accept hexpert => exact h.accept hexpert
  | refuse hexpert => exact h.refuse hexpert

/-- The rows of experts, offered one after the other. -/
theorem selectExperts_concat (base : Nat) (offered : List (Bool × Value)) (offer : Bool × Value) :
    selectExperts object base (offered ++ [offer]) =
      considerExpert object (selectExperts object base offered) offer := by
  simp [selectExperts]

theorem selectExperts_offered (base : Nat) (offered : List (Bool × Value)) :
    Offered object offered (selectExperts object base offered) := by
  induction offered using List.reverseRecOn with
  | nil =>
      refine ⟨?_, ?_, ?_, ?_, ?_, ?_, ?_, ?_⟩ <;> simp [selectExperts, Selection.rows]
  | append_singleton offered offer ih =>
      rw [selectExperts_concat]
      exact ih.concat (considerExpert_step _ offer)

theorem selectExperts_admitted (hbase : base ≤ payloadBudget) (offered : List (Bool × Value)) :
    Admitted object base (selectExperts object base offered) := by
  induction offered using List.reverseRecOn with
  | nil => exact Admitted.init hbase
  | append_singleton offered offer ih =>
      rw [selectExperts_concat]
      exact ih.expert (considerExpert_step _ offer)

end Offered

end Pikamux.Fleet
