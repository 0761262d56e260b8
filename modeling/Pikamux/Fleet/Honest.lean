import Mathlib.Data.List.Perm.Subperm
import Pikamux.Fleet.Transport

/-!
# Fleet — Honest

What a bounded snapshot tells the reader is so: it fits a message, each of its rows is one of the
snapshot's and carries its profile, experts come first, and its notices count every row that it does
not have.

* `select_admitted`, `select_filled` — the selection that the three passes end with.
* `boundedFields_bytes_le` — the bytes that were counted, and the notices, are all there is.
* `omitted_disjoint_iff` — an identity is counted as omitted although it is held exactly when a row
  of it is admitted after another was refused.
* `bounded_snapshot_honest_iff` — so a bounded snapshot is honest unless that happens.
-/

namespace Pikamux.Fleet

open Support Json

variable {object : Value} {base : Nat} {s s' : Selection}

/-! ### The other two passes -/

/-- What the watched rows without a profile add. -/
structure Filled (object : Value) (considered : List Value) (s s' : Selection) : Prop where
  watched : ∃ extra, extra.Sublist (considered.filter fun row => !isExpert object row) ∧
    s'.watched = s.watched ++ extra
  experts : s'.experts = s.experts
  omitted : s'.omitted = s.omitted
  keys : ∀ key ∈ s'.keys, key ∈ s.keys ∨ keyed object "profiles" key = none
  kept : ∀ key ∈ s.keys, key ∈ s'.keys

theorem filled_ordinary (s : Selection) (rows : List Value) :
    Filled object rows s (rows.foldl (considerOrdinary object) s) := by
  induction rows using List.reverseRecOn with
  | nil => exact ⟨⟨[], by simp⟩, rfl, rfl, fun _ h => .inl h, fun _ h => h⟩
  | append_singleton rows row ih =>
      rw [List.foldl_append, List.foldl_cons, List.foldl_nil]
      obtain ⟨extra, hextra, hwatched⟩ := ih.watched
      have hgrow : (rows.filter fun row => !isExpert object row).Sublist
          ((rows ++ [row]).filter fun row => !isExpert object row) := by
        simp
      have hstep := @considerOrdinary_step object (rows.foldl (considerOrdinary object) s) row
      generalize considerOrdinary object (rows.foldl (considerOrdinary object) s) row = next
        at hstep
      cases hstep with
      | skip => exact { ih with watched := ⟨extra, hextra.trans hgrow, hwatched⟩ }
      | @accept key hrow hkey hprofile =>
          have hordinary : isExpert object row = false := by
            simp [isExpert, expertOf, hrow, hprofile]
          refine ⟨⟨extra ++ [row], ?_, ?_⟩, ih.experts, ih.omitted, ?_, ?_⟩
          · simpa [hordinary] using hextra
          · rw [hwatched, List.append_assoc]
          · intro k hk
            rcases List.mem_append.mp hk with hold | hnew
            · exact ih.keys k hold
            · exact .inr (List.mem_singleton.mp hnew ▸ hprofile)
          · exact fun k hk => List.mem_append_left _ (ih.kept k hk)

theorem admitted_ordinary (h : Admitted object base s) (rows : List Value) :
    Admitted object base (rows.foldl (considerOrdinary object) s) := by
  induction rows generalizing s with
  | nil => exact h
  | cons row rows ih => exact ih (h.ordinary (considerOrdinary_step s row))

/-- The pass over the cards leaves the rows. -/
theorem admitted_cards {keys : List (String × String)} (h : Admitted object base s)
    (hkeys : ∀ key ∈ keys, key ∈ s.keys) :
    Admitted object base (keys.foldl (considerCard object) s) ∧
      Filled object [] s (keys.foldl (considerCard object) s) := by
  induction keys generalizing s with
  | nil => exact ⟨h, ⟨[], by simp⟩, rfl, rfl, fun _ h => .inl h, fun _ h => h⟩
  | cons key keys ih =>
      rw [List.forall_mem_cons] at hkeys
      have hstep := @considerCard_step object s key
      rw [List.foldl_cons]
      generalize considerCard object s key = next at hstep
      have hnext := h.card hkeys.1 hstep
      cases hstep with
      | skip => exact ih h hkeys.2
      | accept =>
          obtain ⟨hadmitted, hfilled⟩ := ih hnext hkeys.2
          exact ⟨hadmitted, hfilled.watched, hfilled.experts, hfilled.omitted, hfilled.keys,
            hfilled.kept⟩

theorem cardOrder_keys (h : Admitted object base s) : ∀ key ∈ s.cardOrder, key ∈ s.keys := by
  intro key hkey
  rcases List.mem_append.mp hkey with hexpert | hother
  · exact h.expertKeys key hexpert
  · exact List.mem_mergeSort.mp (List.mem_of_mem_filter hother)

theorem select_admitted (hbase : base ≤ payloadBudget) :
    Admitted object base (select object base) := by
  have hrows := admitted_ordinary (@selectExperts_admitted object base hbase (offers object))
    (fieldItems object "sessions")
  exact (admitted_cards hrows (cardOrder_keys hrows)).1

theorem select_filled (hbase : base ≤ payloadBudget) :
    Filled object (fieldItems object "sessions") (selectExperts object base (offers object))
      (select object base) := by
  have hrows := admitted_ordinary (@selectExperts_admitted object base hbase (offers object))
    (fieldItems object "sessions")
  have hfilled := @filled_ordinary object (selectExperts object base (offers object))
    (fieldItems object "sessions")
  have hcards := (admitted_cards hrows (cardOrder_keys hrows)).2
  obtain ⟨extra, hextra, hwatched⟩ := hcards.watched
  have hnil : extra = [] := by simpa using hextra
  subst hnil
  rw [List.append_nil] at hwatched
  refine ⟨?_, hcards.experts.trans hfilled.experts, hcards.omitted.trans hfilled.omitted, ?_, ?_⟩
  · rw [select, hwatched]
    exact hfilled.watched
  · intro key hkey
    rcases hcards.keys key hkey with hold | hnone
    · exact hfilled.keys key hold
    · exact .inr hnone
  · exact fun key hkey => hcards.kept key (hfilled.kept key hkey)

/-! ### Rows that are refused -/

/-- What no item ends holds at the end when an item began it. -/
theorem foldl_begins_iff {σ α : Type} {f : σ → α → σ} {init : σ} {P : σ → Prop}
    {begins : σ → α → Prop} (hinit : ¬ P init) (hstep : ∀ s x, P (f s x) ↔ P s ∨ begins s x)
    (l : List α) : P (l.foldl f init) ↔
      ∃ before x after, l = before ++ x :: after ∧ begins (before.foldl f init) x := by
  induction l using List.reverseRecOn with
  | nil => simp [hinit]
  | append_singleton l x ih =>
      rw [List.foldl_append, List.foldl_cons, List.foldl_nil, hstep, ih]
      constructor
      · intro h
        rcases h with ⟨before, y, after, rfl, hbegins⟩ | hbegins
        · exact ⟨before, y, after ++ [x], by simp, hbegins⟩
        · exact ⟨l, x, [], rfl, hbegins⟩
      · intro h
        obtain ⟨before, y, after, hl, hbegins⟩ := h
        cases after using List.reverseRecOn with
        | nil =>
            obtain ⟨rfl, hx⟩ := List.append_inj' hl rfl
            cases hx
            exact .inr hbegins
        | append_singleton after z =>
            rw [← List.cons_append, ← List.append_assoc] at hl
            obtain ⟨rfl, -⟩ := List.append_inj' hl rfl
            exact .inl ⟨before, y, after, rfl, hbegins⟩

/-- The offer is a row of the expert `key`, which has no row yet, and there is room for it. -/
def Selection.Takes (object : Value) (s : Selection) (offer : Bool × Value)
    (key : String × String) : Prop :=
  ∃ profile, expertOf object offer.2 = some (key, profile) ∧ key ∉ s.keys ∧
    s.fitsExpert offer.2 profile (keyed object "cards" key) = true

/-- And there is no room for it. -/
def Selection.Refuses (object : Value) (s : Selection) (offer : Bool × Value)
    (key : String × String) : Prop :=
  ∃ profile, expertOf object offer.2 = some (key, profile) ∧ key ∉ s.keys ∧
    s.fitsExpert offer.2 profile (keyed object "cards" key) = false

/-- No expert has a row that is taken after one that was refused. -/
def NoReadmission (object : Value) (base : Nat) : Prop :=
  ∀ before first middle second after key,
    offers object = before ++ first :: (middle ++ second :: after) →
    (selectExperts object base before).Refuses object first key →
    ¬ (selectExperts object base (before ++ first :: middle)).Takes object second key

theorem mem_omitted_considerExpert (offer : Bool × Value) (key : String × String) :
    key ∈ (considerExpert object s offer).omitted ↔
      key ∈ s.omitted ∨ s.Refuses object offer key := by
  have hstep := @considerExpert_step object s offer
  generalize considerExpert object s offer = next at hstep
  cases hstep with
  | none h => simp [Selection.Refuses, h]
  | again h hkey =>
      simp only [Selection.Refuses, h, Option.some.injEq, Prod.mk.injEq]
      constructor
      · exact .inl
      · rintro (hold | ⟨_, ⟨rfl, -⟩, hfree, -⟩)
        · exact hold
        · exact absurd hkey hfree
  | accept h hkey hfits =>
      simp only [Selection.Refuses, h, Option.some.injEq, Prod.mk.injEq]
      constructor
      · exact .inl
      · rintro (hold | ⟨_, ⟨rfl, rfl⟩, -, hfull⟩)
        · exact hold
        · rw [hfits] at hfull
          cases hfull
  | @refuse found profile h hkey hfits =>
      simp only [Selection.Refuses, h, Option.some.injEq, Prod.mk.injEq, List.mem_insert_iff]
      constructor
      · rintro (rfl | hold)
        · exact .inr ⟨profile, ⟨rfl, rfl⟩, hkey, hfits⟩
        · exact .inl hold
      · rintro (hold | ⟨_, ⟨rfl, -⟩, -⟩)
        · exact .inr hold
        · exact .inl rfl

/-- A key that is held and omitted. -/
theorem mem_both_considerExpert (offer : Bool × Value) (key : String × String) :
    (key ∈ (considerExpert object s offer).keys ∧ key ∈ (considerExpert object s offer).omitted) ↔
      (key ∈ s.keys ∧ key ∈ s.omitted) ∨ (s.Takes object offer key ∧ key ∈ s.omitted) := by
  have hstep := @considerExpert_step object s offer
  generalize considerExpert object s offer = next at hstep
  cases hstep with
  | none h => simp [Selection.Takes, h]
  | again h hkey =>
      simp only [Selection.Takes, h, Option.some.injEq, Prod.mk.injEq]
      constructor
      · exact .inl
      · rintro (hold | ⟨⟨_, ⟨rfl, -⟩, hfree, -⟩, -⟩)
        · exact hold
        · exact absurd hkey hfree
  | @accept found profile h hkey hfits =>
      simp only [Selection.Takes, h, Option.some.injEq, Prod.mk.injEq, Selection.admitExpert,
        List.mem_append, List.mem_singleton]
      constructor
      · rintro ⟨hold | rfl, homitted⟩
        · exact .inl ⟨hold, homitted⟩
        · exact .inr ⟨⟨profile, ⟨rfl, rfl⟩, hkey, hfits⟩, homitted⟩
      · rintro (⟨hold, homitted⟩ | ⟨⟨_, ⟨rfl, -⟩, -⟩, homitted⟩)
        · exact ⟨.inl hold, homitted⟩
        · exact ⟨.inr rfl, homitted⟩
  | @refuse found profile h hkey hfits =>
      simp only [Selection.Takes, h, Option.some.injEq, Prod.mk.injEq, List.mem_insert_iff]
      constructor
      · rintro ⟨hheld, rfl | homitted⟩
        · exact absurd hheld hkey
        · exact .inl ⟨hheld, homitted⟩
      · rintro (⟨hheld, homitted⟩ | ⟨⟨_, ⟨rfl, rfl⟩, -, hfull⟩, -⟩)
        · exact ⟨hheld, .inr homitted⟩
        · rw [hfits] at hfull
          cases hfull

/-- Which identities are counted as omitted although they are held. -/
theorem omitted_disjoint_iff (object : Value) (base : Nat) :
    (∀ key ∈ (selectExperts object base (offers object)).omitted,
      key ∉ (selectExperts object base (offers object)).keys) ↔ NoReadmission object base := by
  have homitted : ∀ offered key, key ∈ (selectExperts object base offered).omitted ↔
      ∃ before first after, offered = before ++ first :: after ∧
        (selectExperts object base before).Refuses object first key := fun offered key =>
    foldl_begins_iff (P := fun s : Selection => key ∈ s.omitted) (by simp)
      (fun _ offer => mem_omitted_considerExpert offer key) offered
  have hboth : ∀ key, (key ∈ (selectExperts object base (offers object)).keys ∧
      key ∈ (selectExperts object base (offers object)).omitted) ↔
      ∃ before second after, offers object = before ++ second :: after ∧
        (selectExperts object base before).Takes object second key ∧
        key ∈ (selectExperts object base before).omitted := fun key =>
    foldl_begins_iff (P := fun s : Selection => key ∈ s.keys ∧ key ∈ s.omitted) (by simp)
      (fun _ offer => mem_both_considerExpert offer key) (offers object)
  constructor
  · intro hdisjoint before first middle second after key hoffers hrefuses htakes
    obtain ⟨hheld, hcounted⟩ := (hboth key).mpr ⟨before ++ first :: middle, second, after,
      by simpa using hoffers, htakes, (homitted _ key).mpr ⟨before, first, middle, rfl, hrefuses⟩⟩
    exact hdisjoint key hcounted hheld
  · intro hnone key hcounted hheld
    obtain ⟨reached, second, after, hoffers, htakes, hbefore⟩ := (hboth key).mp ⟨hheld, hcounted⟩
    obtain ⟨before, first, middle, rfl, hrefuses⟩ := (homitted reached key).mp hbefore
    exact hnone before first middle second after key (by simpa using hoffers) hrefuses htakes

/-! ### The size of the result -/

theorem valueCost_eq (value : Value) : valueCost value = value.bytes + 1 := by
  rw [valueCost, Value.utf8ByteSize_toText]

theorem bytes_fill {key : String} {fields : List (String × Value)} (values : List Value)
    (h : Value.insertField key (.array []) fields = fields) :
    Value.fieldsBytes (Value.insertField key (.array values) fields) ≤
      Value.fieldsBytes fields + costs values := by
  have hreplace := @Value.fieldsBytes_replace key (.array values) (.array []) fields h
  have hvalues := Value.bytes_array_le values
  have hcosts : (values.map fun v => v.bytes + 1).sum = costs values := by
    rw [costs]
    exact congrArg List.sum (List.map_congr_left fun v _ => (valueCost_eq v).symm)
  have hnil := Value.bytes_array_nil
  omega

theorem open_of_ne {key other : String} {values : List Value} {fields : List (String × Value)}
    (hne : key ≠ other) (h : Value.insertField key (.array []) fields = fields) :
    Value.insertField key (.array []) (Value.insertField other (.array values) fields) =
      Value.insertField other (.array values) fields :=
  Value.insertField_of_ne hne h

/-- The arrays that are to be filled. -/
structure Open (fields filled : List (String × Value)) : Prop where
  sessions : Value.insertField "sessions" (.array []) filled = filled
  profiles : Value.insertField "profiles" (.array []) filled = filled
  cards : Value.insertField "cards" (.array []) filled = filled
  experts : (fields.lookup "expert_sessions").isSome →
    Value.insertField "expert_sessions" (.array []) filled = filled

theorem envelope_open (fields : List (String × Value)) : Open fields (envelope fields) := by
  have hsame : ∀ key base, Value.insertField key (.array [])
      (Value.insertField key (.array []) base) = Value.insertField key (.array []) base :=
    fun key base => Value.insertField_insertField key (.array []) (.array []) base
  rw [envelope]
  split
  case isTrue h =>
    refine ⟨?_, ?_, ?_, fun _ => hsame _ _⟩
    · exact open_of_ne (by decide) (open_of_ne (by decide) (open_of_ne (by decide) (hsame _ _)))
    · exact open_of_ne (by decide) (open_of_ne (by decide) (hsame _ _))
    · exact open_of_ne (by decide) (hsame _ _)
  case isFalse h =>
    refine ⟨?_, ?_, hsame _ _, fun hsome => absurd hsome h⟩
    · exact open_of_ne (by decide) (open_of_ne (by decide) (hsame _ _))
    · exact open_of_ne (by decide) (hsame _ _)

/-- The snapshot with its rows and without notices. -/
def filledFields (fields : List (String × Value)) (s : Selection) : List (String × Value) :=
  let result := envelope fields
  let result := Value.insertField "sessions" (.array s.watched) result
  let result := Value.insertField "profiles" (.array s.profiles) result
  let result := Value.insertField "cards" (.array s.cards) result
  if (fields.lookup "expert_sessions").isSome then
    Value.insertField "expert_sessions" (.array s.experts) result else result

theorem boundedFields_eq (fields : List (String × Value)) (s : Selection) :
    boundedFields fields s =
      if (notices (.object fields) s).isEmpty then filledFields fields s
      else Value.insertField "directory_notices" (.array (notices (.object fields) s))
        (filledFields fields s) := rfl

theorem filledFields_bytes_le (fields : List (String × Value)) (s : Selection) :
    Value.fieldsBytes (filledFields fields s) ≤ Value.fieldsBytes (envelope fields) +
      costs s.watched + costs s.profiles + costs s.cards + costs s.experts := by
  have hopen := envelope_open fields
  have hsessions := bytes_fill s.watched hopen.sessions
  have hprofiles := bytes_fill s.profiles
    (@open_of_ne "profiles" "sessions" s.watched _ (by decide) hopen.profiles)
  have hcards := bytes_fill s.cards (@open_of_ne "cards" "profiles" s.profiles _ (by decide)
    (@open_of_ne "cards" "sessions" s.watched _ (by decide) hopen.cards))
  simp only [filledFields]
  split
  case isTrue h =>
    have hexperts := bytes_fill s.experts
      (@open_of_ne "expert_sessions" "cards" s.cards _ (by decide)
        (@open_of_ne "expert_sessions" "profiles" s.profiles _ (by decide)
          (@open_of_ne "expert_sessions" "sessions" s.watched _ (by decide) (hopen.experts h))))
    omega
  case isFalse h => omega

/-- A notice is small when its count is a machine word. -/
theorem notice_bytes_le {kind tail : String} {n : Nat} (hn : n < 2 ^ 64)
    (hkind : kind.utf8ByteSize ≤ 64) (htail : tail.utf8ByteSize ≤ 128) :
    valueCost (.object [("kind", .string kind), ("message", .string (toString n ++ tail)),
      ("omitted_rows", .number (.posInt n))]) ≤ 4096 := by
  have hdigits : charsBytes (Nat.toDigits 10 n) ≤ 20 :=
    charsBytes_toDigits_le (Nat.lt_trans hn (by decide)) (by decide)
  have hprint : (toString n).utf8ByteSize = charsBytes (Nat.toDigits 10 n) :=
    utf8ByteSize_ofList _
  have hkindBytes := charsBytes_quoted_le kind
  have hmessage := charsBytes_quoted_le (toString n ++ tail)
  rw [String.utf8ByteSize_append, hprint] at hmessage
  have hnames : charsBytes (quoted "kind") = 6 ∧ charsBytes (quoted "message") = 9 ∧
      charsBytes (quoted "omitted_rows") = 14 := by decide
  rw [valueCost_eq, Value.bytes_object (by simp)]
  simp only [Value.fieldsBytes, Value.fieldBytes, List.map_cons, List.map_nil, List.sum_cons,
    List.sum_nil, Value.bytes, Value.chars, Number.chars]
  omega

/-! ### What the result has -/

section Fields

variable {key other : String} {fields : List (String × Value)}

theorem fieldItems_insertField_self (key : String) (values : List Value)
    (fields : List (String × Value)) :
    fieldItems (.object (Value.insertField key (.array values) fields)) key = values := by
  simp [fieldItems, Value.get?, Value.lookup_insertField_self, Value.asArray]

theorem fieldItems_insertField_ne (hne : other ≠ key) (value : Value) :
    fieldItems (.object (Value.insertField key value fields)) other =
      fieldItems (.object fields) other := by
  simp [fieldItems, Value.get?, Value.lookup_insertField_ne hne]

theorem fieldItems_kept (h : key ∈ rowFields) :
    fieldItems (.object (fields.filter fun f => !rowFields.contains f.1)) key = [] := by
  have hnone : (fields.filter fun f => !rowFields.contains f.1).lookup key = none := by
    rw [List.lookup_eq_none_iff]
    intro f hf
    have hkept := (List.mem_filter.mp hf).2
    rw [bne_iff_ne]
    intro heq
    rw [← heq] at hkept
    simp [h] at hkept
  rw [fieldItems, Value.get?, hnone]
  rfl

end Fields

/-- The result holds what was selected. -/
structure Shows (object result : Value) (s : Selection) : Prop where
  sessions : fieldItems result "sessions" = s.watched
  experts : fieldItems result "expert_sessions" = s.experts
  profiles : fieldItems result "profiles" = s.profiles
  cards : fieldItems result "cards" = s.cards
  notices : fieldItems result "directory_notices" = notices object s

theorem filledFields_shows {fields : List (String × Value)}
    (hexperts : fields.lookup "expert_sessions" = none → s.experts = []) :
    fieldItems (.object (filledFields fields s)) "sessions" = s.watched ∧
      fieldItems (.object (filledFields fields s)) "expert_sessions" = s.experts ∧
      fieldItems (.object (filledFields fields s)) "profiles" = s.profiles ∧
      fieldItems (.object (filledFields fields s)) "cards" = s.cards ∧
      fieldItems (.object (filledFields fields s)) "directory_notices" = [] := by
  have hself := fieldItems_insertField_self
  have hne := @fieldItems_insertField_ne
  have hnotices : fieldItems (.object (envelope fields)) "directory_notices" = [] := by
    rw [envelope]
    split
    · rw [hne (by decide), hne (by decide), hne (by decide), hne (by decide),
        fieldItems_kept (by decide)]
    · rw [hne (by decide), hne (by decide), hne (by decide), fieldItems_kept (by decide)]
  rw [filledFields]
  split
  · refine ⟨?_, hself _ _ _, ?_, ?_, ?_⟩
    · rw [hne (by decide), hne (by decide), hne (by decide), hself]
    · rw [hne (by decide), hne (by decide), hself]
    · rw [hne (by decide), hself]
    · rw [hne (by decide), hne (by decide), hne (by decide), hne (by decide), hnotices]
  case isFalse habsent =>
    have hnone : fields.lookup "expert_sessions" = none := Option.not_isSome_iff_eq_none.mp habsent
    refine ⟨?_, ?_, ?_, hself _ _ _, ?_⟩
    · rw [hne (by decide), hne (by decide), hself]
    · rw [hne (by decide), hne (by decide), hne (by decide), hexperts hnone, envelope,
        if_neg habsent, hne (by decide), hne (by decide), hne (by decide),
        fieldItems_kept (by decide)]
    · rw [hne (by decide), hself]
    · rw [hne (by decide), hne (by decide), hne (by decide), hnotices]

theorem boundedFields_shows {fields : List (String × Value)}
    (hexperts : fields.lookup "expert_sessions" = none → s.experts = []) :
    Shows (.object fields) (.object (boundedFields fields s)) s := by
  obtain ⟨hsessions, hexperts, hprofiles, hcards, hnotices⟩ := filledFields_shows hexperts
  have hne := @fieldItems_insertField_ne
  rw [boundedFields_eq]
  split
  case isTrue hempty =>
    exact ⟨hsessions, hexperts, hprofiles, hcards, hnotices.trans (List.isEmpty_iff.mp hempty).symm⟩
  case isFalse hsome =>
    refine ⟨?_, ?_, ?_, ?_, fieldItems_insertField_self _ _ _⟩
    · rw [hne (by decide), hsessions]
    · rw [hne (by decide), hexperts]
    · rw [hne (by decide), hprofiles]
    · rw [hne (by decide), hcards]

/-! ### What the result says -/

/-- The session rows of a snapshot. -/
def sessionRows (snapshot : Value) : List Value :=
  fieldItems snapshot "expert_sessions" ++ fieldItems snapshot "sessions"

def noticeKind (notice : Value) : Option String := (notice.get? "kind").bind Value.asStr

def omittedRows (notice : Value) : Nat :=
  match notice.get? "omitted_rows" with
  | some (.number (.posInt n)) => n
  | _ => 0

/-- The rows that the notices count. -/
def noticedRows (snapshot : Value) : Nat :=
  ((fieldItems snapshot "directory_notices").map omittedRows).sum

/-- The experts that the notices count. -/
def noticedExperts (snapshot : Value) : Nat :=
  (((fieldItems snapshot "directory_notices").filter fun notice =>
    noticeKind notice = some "expert-directory-incomplete").map omittedRows).sum

/-- The identities of the rows that have a profile. -/
def expertIdentities (object : Value) : List (String × String) :=
  ((sessionRows object).filterMap fun row => (expertOf object row).map Prod.fst).dedup

/-- Those that have no row in the result. -/
def missingExperts (object result : Value) : List (String × String) :=
  (expertIdentities object).filter fun key =>
    !((sessionRows result).map wireValueKey).contains (some key)

/-- The value is about a row of the snapshot. -/
def Belongs (snapshot value : Value) : Prop :=
  ∃ row ∈ sessionRows snapshot, (wireValueKey row).isSome ∧ wireValueKey row = wireValueKey value

/-- What must hold of a bounded snapshot. -/
structure Honest (object result : Value) (base : Nat) : Prop where
  bytes : result.toText.utf8ByteSize ≤ maxMessageBytes
  count : (sessionRows result).length ≤ maxSnapshotSessions
  keyed : ∀ row ∈ sessionRows result, (wireValueKey row).isSome
  distinct : ((sessionRows result).map wireValueKey).Nodup
  sessions : (fieldItems result "sessions").Subperm (fieldItems object "sessions")
  experts : (fieldItems result "expert_sessions").Sublist (fieldItems object "expert_sessions")
  profiles : ∀ value ∈ fieldItems result "profiles", Belongs result value
  cards : ∀ value ∈ fieldItems result "cards", Belongs result value
  carries : ∀ row ∈ sessionRows result, ∀ key profile, expertOf object row = some (key, profile) →
    profile ∈ fieldItems result "profiles"
  /-- Until all experts were considered there are only rows of experts. -/
  first : ∀ before after, offers object = before ++ after →
    ∀ row ∈ (selectExperts object base before).rows, isExpert object row = true
  /-- And afterwards only other rows come. -/
  last : ∃ others, (∀ row ∈ others, isExpert object row = false) ∧
    (sessionRows result).Perm ((selectExperts object base (offers object)).rows ++ others)
  omitted : noticedRows result + (sessionRows result).length = (sessionRows object).length
  missing : noticedExperts result = (missingExperts object result).length

/-! ### The rows of the selection -/

section Rows

theorem offers_rows (object : Value) : (offers object).map Prod.snd = sessionRows object := by
  simp [offers, sessionRows, List.map_map, Function.comp_def]

theorem offers_watched (object : Value) :
    ((offers object).filter fun o => !o.1).map Prod.snd = fieldItems object "sessions" := by
  simp [offers, List.filter_map, Function.comp_def, List.map_map]

theorem offers_experts (object : Value) :
    ((offers object).filter fun o => o.1).map Prod.snd = fieldItems object "expert_sessions" := by
  simp [offers, List.filter_map, Function.comp_def, List.map_map]

variable (hbase : base ≤ payloadBudget)

include hbase

theorem select_watched_subperm :
    (select object base).watched.Subperm (fieldItems object "sessions") := by
  obtain ⟨extra, hextra, hwatched⟩ := (@select_filled object base hbase).watched
  have hexperts := (@selectExperts_offered object base (offers object)).watched
  rw [offers_watched] at hexperts
  rw [hwatched]
  exact (hexperts.append hextra).subperm.trans (List.filter_append_perm _ _).subperm

theorem select_experts_sublist :
    (select object base).experts.Sublist (fieldItems object "expert_sessions") := by
  have hexperts := (@selectExperts_offered object base (offers object)).experts
  rw [offers_experts] at hexperts
  rwa [(@select_filled object base hbase).experts]

/-- The rows that are held and the experts that are omitted are no more than there are rows. -/
theorem select_count : (select object base).rows.length + (select object base).omitted.length ≤
    (sessionRows object).length := by
  have hfilled := @select_filled object base hbase
  obtain ⟨extra, hextra, hwatched⟩ := hfilled.watched
  have hoffered := (@selectExperts_offered object base (offers object)).count
  have hexpert : ((offers object).filter fun o => isExpert object o.2).length =
      ((sessionRows object).filter (isExpert object)).length := by
    rw [← offers_rows, List.filter_map, List.length_map]
    rfl
  have hothers : ((fieldItems object "sessions").filter fun row => !isExpert object row).length ≤
      ((sessionRows object).filter fun row => !isExpert object row).length := by
    rw [sessionRows, List.filter_append, List.length_append]
    omega
  have hall := @List.length_eq_length_filter_add _ (sessionRows object) (isExpert object)
  have hadded := hextra.length_le
  simp only [Selection.rows, List.length_append, hwatched, hfilled.experts, hfilled.omitted]
    at hoffered ⊢
  omega

end Rows

/-! ### The notices -/

section Notices

variable {result : Value}

theorem shows_rows (h : Shows object result s) : (sessionRows result).Perm s.rows := by
  rw [sessionRows, h.experts, h.sessions]
  exact List.perm_append_comm

theorem shows_noticed (h : Shows object result s) (hsmall : (sessionRows object).length < 2 ^ 64)
    (hcount : s.rows.length + s.omitted.length ≤ (sessionRows object).length) :
    noticedRows result + s.rows.length = (sessionRows object).length ∧
      noticedExperts result = s.omitted.length := by
  have htotal : (fieldItems object "sessions").length +
      (fieldItems object "expert_sessions").length = (sessionRows object).length := by
    rw [sessionRows, List.length_append, Nat.add_comm]
  have hsaturated : saturatingAdd (fieldItems object "sessions").length
      (fieldItems object "expert_sessions").length = (sessionRows object).length := by
    rw [saturatingAdd, htotal, Nat.min_eq_left (by omega)]
  have hrows : s.watched.length + s.experts.length = s.rows.length := by
    rw [Selection.rows, List.length_append]
  have hexpert : ∀ n, omittedRows (expertNotice n) = n ∧
      noticeKind (expertNotice n) = some "expert-directory-incomplete" := fun n => ⟨rfl, rfl⟩
  have hsnapshot : ∀ n, omittedRows (snapshotNotice n) = n ∧
      noticeKind (snapshotNotice n) = some "snapshot-incomplete" := fun n => ⟨rfl, rfl⟩
  rw [noticedRows, noticedExperts, h.notices]
  simp only [notices, hsaturated, hrows]
  by_cases hempty : s.omitted.isEmpty
  · have hnil := List.isEmpty_iff.mp hempty
    have hzero := congrArg List.length hnil
    rw [List.length_nil] at hzero
    rw [if_pos hempty]
    split
    · simp [hsnapshot, hnil]
      omega
    · simp [hnil]
      omega
  · rw [if_neg hempty]
    split
    · simp [hsnapshot, hexpert]
      omega
    · simp [hexpert]
      omega

/-- An identity is counted by the notice exactly when it is missing. -/
theorem shows_missing_iff (hbase : base ≤ payloadBudget)
    (h : Shows object result (select object base)) :
    (select object base).omitted.length = (missingExperts object result).length ↔
      ∀ key ∈ (selectExperts object base (offers object)).omitted,
        key ∉ (selectExperts object base (offers object)).keys := by
  have hfilled := @select_filled object base hbase
  have hadmitted := @select_admitted object base hbase
  have hoffered := @selectExperts_offered object base (offers object)
  rw [hfilled.omitted]
  generalize selectExperts object base (offers object) = taken at hfilled hoffered ⊢
  have hidentity : ∀ key, key ∈ expertIdentities object ↔
      ∃ offer ∈ offers object, (expertOf object offer.2).map Prod.fst = some key := by
    intro key
    rw [expertIdentities, List.mem_dedup, ← offers_rows]
    simp only [List.mem_filterMap, List.mem_map]
    constructor
    · rintro ⟨row, ⟨offer, hoffer, rfl⟩, hkey⟩
      exact ⟨offer, hoffer, hkey⟩
    · rintro ⟨offer, hoffer, hkey⟩
      exact ⟨offer.2, ⟨offer, hoffer, rfl⟩, hkey⟩
  have hheld : ∀ key, some key ∈ (sessionRows result).map wireValueKey ↔
      key ∈ (select object base).keys := by
    intro key
    rw [((shows_rows h).map wireValueKey).mem_iff, hadmitted.rows.mem_iff]
    simp
  -- an expert that is held was held when all experts had been considered
  have hexpert : ∀ key ∈ expertIdentities object,
      (key ∈ (select object base).keys ↔ key ∈ taken.keys) := by
    intro key hkey
    obtain ⟨offer, -, hfound⟩ := (hidentity key).mp hkey
    obtain ⟨⟨found, profile⟩, hexpert, rfl⟩ := Option.map_eq_some_iff.mp hfound
    have hprofile := ((expertOf_eq_some object).mp hexpert).2
    constructor
    · intro hmem
      refine (hfilled.keys found hmem).resolve_right fun hnone => ?_
      rw [hnone] at hprofile
      cases hprofile
    · exact hfilled.kept found
  have hmissing : ∀ key, key ∈ missingExperts object result ↔
      key ∈ expertIdentities object ∧ key ∉ taken.keys := by
    intro key
    rw [missingExperts, List.mem_filter, Bool.not_eq_true', List.contains_eq_mem,
      decide_eq_false_iff_not, hheld]
    exact and_congr_right fun hkey => not_congr (hexpert key hkey)
  have hsubset : missingExperts object result ⊆ taken.omitted := by
    intro key hkey
    obtain ⟨hkey, hnot⟩ := (hmissing key).mp hkey
    obtain ⟨offer, hoffer, hfound⟩ := (hidentity key).mp hkey
    obtain ⟨⟨found, profile⟩, hexpert, rfl⟩ := Option.map_eq_some_iff.mp hfound
    exact (hoffered.covered offer hoffer found profile hexpert).resolve_left hnot
  have hsubperm : (missingExperts object result).Subperm taken.omitted :=
    List.subperm_of_subset ((List.nodup_dedup _).filter _) hsubset
  constructor
  · intro hlength key hkey
    have hperm := hsubperm.perm_of_length_le (Nat.le_of_eq hlength)
    exact ((hmissing key).mp (hperm.mem_iff.mpr hkey)).2
  · intro hdisjoint
    refine Nat.le_antisymm ?_ hsubperm.length_le
    refine (List.subperm_of_subset hoffered.distinct fun key hkey => ?_).length_le
    exact (hmissing key).mpr ⟨(hidentity key).mpr (hoffered.omitted key hkey), hdisjoint key hkey⟩

end Notices

/-! ### The message -/

theorem notices_cost_le (object : Value) (h : s.omitted.length < 2 ^ 64) :
    costs (notices object s) ≤ 2 * 4096 := by
  have hexpert := @notice_bytes_le "expert-directory-incomplete"
    " expert card(s) omitted by the remote snapshot safety budget" s.omitted.length h (by decide)
    (by decide)
  have hordinary : saturatingAdd (fieldItems object "sessions").length
      (fieldItems object "expert_sessions").length - (s.watched.length + s.experts.length) -
      s.omitted.length < 2 ^ 64 := by
    rw [saturatingAdd]
    omega
  have hsnapshot := @notice_bytes_le "snapshot-incomplete"
    " watched conversation(s) omitted by the remote snapshot safety budget" _ hordinary (by decide)
    (by decide)
  simp only [notices]
  rw [costs_append]
  have hfirst : costs (if s.omitted.isEmpty then [] else [expertNotice s.omitted.length]) ≤
      4096 := by
    split
    · simp [costs]
    · rw [costs_singleton]
      exact hexpert
  have hsecond : costs (if 0 < saturatingAdd (fieldItems object "sessions").length
      (fieldItems object "expert_sessions").length - (s.watched.length + s.experts.length) -
      s.omitted.length then [snapshotNotice (saturatingAdd (fieldItems object "sessions").length
      (fieldItems object "expert_sessions").length - (s.watched.length + s.experts.length) -
      s.omitted.length)] else []) ≤ 4096 := by
    split
    · rw [costs_singleton]
      exact hsnapshot
    · simp [costs]
  omega

theorem envelopeBytes_eq (fields : List (String × Value)) :
    envelopeBytes fields = 1 + Value.fieldsBytes (envelope fields) := by
  have hne : envelope fields ≠ [] := by
    rw [envelope]
    split
    · exact Value.insertField_ne_nil _ _ _
    · exact Value.insertField_ne_nil _ _ _
  rw [envelopeBytes, Value.utf8ByteSize_toText, Value.bytes_object hne]

/-- The reserve has room for the notices. -/
theorem boundedFields_bytes_le {fields : List (String × Value)}
    (h : Admitted (.object fields) (envelopeBytes fields) s)
    (homitted : s.omitted.length < 2 ^ 64) :
    (Value.object (boundedFields fields s)).toText.utf8ByteSize ≤ maxMessageBytes := by
  have hfilled := filledFields_bytes_le fields s
  have hbytes := h.bytes
  have hbudget := h.budget
  have hreserve : payloadBudget + 64 * 1024 = maxMessageBytes := by decide
  rw [envelopeBytes_eq] at hbytes
  have hne : filledFields fields s ≠ [] := by
    rw [filledFields]
    split
    · exact Value.insertField_ne_nil _ _ _
    · exact Value.insertField_ne_nil _ _ _
  rw [Value.utf8ByteSize_toText, boundedFields_eq]
  split
  · rw [Value.bytes_object hne]
    omega
  · rw [Value.bytes_object (Value.insertField_ne_nil _ _ _)]
    have hinsert := @Value.fieldsBytes_insertField_le "directory_notices"
      (.array (notices (.object fields) s)) (filledFields fields s)
    have hname : charsBytes (quoted "directory_notices") = 19 := by decide
    have harray := Value.bytes_array_le (notices (.object fields) s)
    have hcosts : ((notices (.object fields) s).map fun v => v.bytes + 1).sum =
        costs (notices (.object fields) s) := by
      rw [costs]
      exact congrArg List.sum (List.map_congr_left fun v _ => (valueCost_eq v).symm)
    have hnotices := notices_cost_le (.object fields) homitted
    rw [Value.fieldBytes, hname] at hinsert
    omega

theorem select_shows {fields : List (String × Value)} (hbase : base ≤ payloadBudget) :
    Shows (.object fields) (.object (boundedFields fields (select (.object fields) base)))
      (select (.object fields) base) := by
  refine boundedFields_shows fun hnone => ?_
  have hexperts := @select_experts_sublist (.object fields) base hbase
  have hnil : fieldItems (.object fields) "expert_sessions" = [] := by
    simp [fieldItems, Value.get?, hnone]
  rw [hnil] at hexperts
  exact List.sublist_nil.mp hexperts

/-- A value that has the key of the selection is about one of its rows. -/
theorem belongs_of_key {result value : Value} {key : String × String}
    (hadmitted : Admitted object base s) (hshows : Shows object result s) (hkey : key ∈ s.keys)
    (hvalue : wireValueKey value = some key) : Belongs result value := by
  have hmem := ((shows_rows hshows).map wireValueKey).mem_iff.mpr
    (hadmitted.rows.mem_iff.mpr (List.mem_map_of_mem hkey))
  obtain ⟨row, hrow, hfound⟩ := List.mem_map.mp hmem
  exact ⟨row, hrow, by rw [hfound]; rfl, by rw [hfound, hvalue]⟩

/-- All but the size of the result and the count of the missing experts. -/
theorem honest_of_shows {result : Value} (hbase : base ≤ payloadBudget)
    (hshows : Shows object result (select object base))
    (hsmall : (sessionRows object).length < 2 ^ 64)
    (hbytes : result.toText.utf8ByteSize ≤ maxMessageBytes)
    (hmissing : (select object base).omitted.length = (missingExperts object result).length) :
    Honest object result base := by
  have hadmitted := @select_admitted object base hbase
  have hfilled := @select_filled object base hbase
  have hrows := shows_rows hshows
  have hkeys : ((sessionRows result).map wireValueKey).Perm ((select object base).keys.map some) :=
    (hrows.map wireValueKey).trans hadmitted.rows
  obtain ⟨homitted, hnoticed⟩ := shows_noticed hshows hsmall (select_count hbase)
  refine ⟨hbytes, ?_, ?_, ?_, ?_, ?_, ?_, ?_, ?_, ?_, ?_, ?_, hnoticed.trans hmissing⟩
  · rw [hrows.length_eq, Selection.rows, List.length_append]
    exact hadmitted.count
  · intro row hrow
    obtain ⟨key, -, hkey⟩ := List.mem_map.mp (hkeys.mem_iff.mp (List.mem_map_of_mem hrow))
    rw [← hkey]
    rfl
  · exact hkeys.nodup_iff.mpr (hadmitted.distinct.map (Option.some_injective _))
  · rw [hshows.sessions]
    exact select_watched_subperm hbase
  · rw [hshows.experts]
    exact select_experts_sublist hbase
  · intro value hvalue
    rw [hshows.profiles] at hvalue
    obtain ⟨key, hkey, hfound⟩ := hadmitted.profiles value hvalue
    exact belongs_of_key hadmitted hshows hkey hfound
  · intro value hvalue
    rw [hshows.cards] at hvalue
    obtain ⟨key, hkey, hfound⟩ := hadmitted.cards value hvalue
    exact belongs_of_key hadmitted hshows hkey hfound
  · intro row hrow key profile hexpert
    obtain ⟨hkey, hprofile⟩ := (expertOf_eq_some object).mp hexpert
    have hmem := hkeys.mem_iff.mp (List.mem_map_of_mem hrow)
    rw [hkey] at hmem
    rw [hshows.profiles]
    exact hadmitted.carries key (by simpa using hmem) profile hprofile
  · intro before after _
    exact (@selectExperts_offered object base before).held
  · obtain ⟨others, hothers, hwatched⟩ := hfilled.watched
    refine ⟨others, ?_, ?_⟩
    · intro row hrow
      simpa using (List.mem_filter.mp (hothers.subset hrow)).2
    · refine hrows.trans ?_
      rw [Selection.rows, Selection.rows, hwatched, hfilled.experts, List.append_assoc,
        List.append_assoc]
      exact List.perm_append_comm.append_left _
  · rw [hrows.length_eq]
    exact homitted

/-- A bounded snapshot is honest when no expert is held that is counted as omitted. -/
theorem bound_honest_iff {fields : List (String × Value)}
    (hbase : envelopeBytes fields ≤ payloadBudget)
    (hsmall : (sessionRows (.object fields)).length < 2 ^ 64) :
    (∃ result, boundSnapshotForTransport (.object fields) = .ok result ∧
      Honest (.object fields) result (envelopeBytes fields)) ↔
    ∀ key ∈ (selectExperts (.object fields) (envelopeBytes fields)
        (offers (.object fields))).omitted,
      key ∉ (selectExperts (.object fields) (envelopeBytes fields)
        (offers (.object fields))).keys := by
  have hcount := @select_count (.object fields) _ hbase
  have hshows := @select_shows _ fields hbase
  have hbytes := boundedFields_bytes_le (@select_admitted (.object fields) _ hbase) (by omega)
  have hrun : boundSnapshotForTransport (.object fields) = .ok (.object (boundedFields fields
      (select (.object fields) (envelopeBytes fields)))) := by
    simp [boundSnapshotForTransport, context, ensure, Value.asObject, hbytes]
  rw [← shows_missing_iff hbase hshows, hrun]
  constructor
  · intro h
    obtain ⟨result, hresult, hhonest⟩ := h
    cases hresult
    exact (shows_noticed hshows hsmall hcount).2.symm.trans hhonest.missing
  · exact fun hmissing => ⟨_, rfl, honest_of_shows hbase hshows hsmall hbytes hmissing⟩

/-- A bounded snapshot is honest unless an expert has a row that is taken after one that was
refused. -/
theorem bounded_snapshot_honest_iff (fields : List (String × Value))
    (hbase : envelopeBytes fields ≤ payloadBudget)
    (hsmall : (sessionRows (.object fields)).length < 2 ^ 64) :
    (∃ result, boundSnapshotForTransport (.object fields) = .ok result ∧
      Honest (.object fields) result (envelopeBytes fields)) ↔
    NoReadmission (.object fields) (envelopeBytes fields) := by
  rw [bound_honest_iff hbase hsmall]
  exact omitted_disjoint_iff (.object fields) (envelopeBytes fields)

/-- One expert and one other conversation. -/
def sampleFields : List (String × Value) :=
  [("expert_sessions", .array
      [.object [("provider", .string "claude"), ("session_id", .string "a")]]),
    ("profiles", .array [.object [("provider", .string "claude"), ("session_id", .string "a")]]),
    ("sessions", .array [.object [("provider", .string "codex"), ("session_id", .string "b")]])]

theorem bounded_snapshot_sample :
    ∃ result, boundSnapshotForTransport (.object sampleFields) = .ok result ∧
      Honest (.object sampleFields) result (envelopeBytes sampleFields) := by
  refine (bounded_snapshot_honest_iff sampleFields (by decide) (by decide)).mpr ?_
  intro before first middle second after key hoffers _ htakes
  obtain ⟨profile, hexpert, -⟩ := htakes
  -- there are two offers, and the second is no row of an expert
  have hlength := congrArg List.length hoffers
  have htwo : (offers (.object sampleFields)).length = 2 := rfl
  simp only [htwo, List.length_append, List.length_cons] at hlength
  have hbefore : before = [] := List.length_eq_zero_iff.mp (by omega)
  have hmiddle : middle = [] := List.length_eq_zero_iff.mp (by omega)
  subst hbefore hmiddle
  have hsecond := congrArg (fun l => l[1]?) hoffers
  simp only [List.nil_append, List.getElem?_cons_succ, List.getElem?_cons_zero] at hsecond
  have hnone : ∀ offer, (offers (.object sampleFields))[1]? = some offer →
      expertOf (.object sampleFields) offer.2 = none := by
    intro offer hoffer
    cases hoffer
    rfl
  rw [hnone second hsecond] at hexpert
  cases hexpert

/-- An expert has a row with a long title, and another one. -/
def strayRow (title : List Char) : Value :=
  .object [("provider", .string "claude"), ("session_id", .string "a"),
    ("title", .string (String.ofList title))]

def strayProfile : Value := .object [("provider", .string "claude"), ("session_id", .string "a")]

def strayFields (title : List Char) : List (String × Value) :=
  [("expert_sessions", .array [strayRow title]), ("profiles", .array [strayProfile]),
    ("sessions", .array [strayProfile])]

theorem envelopeBytes_strayFields (title : List Char) :
    envelopeBytes (strayFields title) = envelopeBytes (strayFields []) := by
  simp [envelopeBytes, envelope, strayFields, rowFields]

theorem strayRow_cost (n : Nat) : n < valueCost (strayRow (List.replicate n 'x')) := by
  have htitle := utf8ByteSize_le_quoted (String.ofList (List.replicate n 'x'))
  have hsize : (String.ofList (List.replicate n 'x')).utf8ByteSize = n := by
    rw [utf8ByteSize_ofList]
    have hx : 'x'.utf8Size = 1 := rfl
    simp [charsBytes, hx]
  rw [valueCost_eq, strayRow, Value.bytes_object (by simp)]
  simp only [Value.fieldsBytes, Value.fieldBytes, List.map_cons, List.map_nil, List.sum_cons,
    List.sum_nil, Value.bytes, Value.chars]
  omega

/-- The first row alone is too long, and the second one is not. -/
theorem strayFields_readmits {title : List Char}
    (hcost : payloadBudget < valueCost (strayRow title)) (hbase : base + 200 ≤ payloadBudget) :
    ¬ NoReadmission (.object (strayFields title)) base := by
  intro hnone
  have hcard : keyed (.object (strayFields title)) "cards" ("claude", "a") = none := rfl
  have hfirst : expertOf (.object (strayFields title)) (strayRow title) =
      some (("claude", "a"), strayProfile) := rfl
  have hsecond : expertOf (.object (strayFields title)) strayProfile =
      some (("claude", "a"), strayProfile) := rfl
  have hfull : ∀ s : Selection, s.fitsExpert (strayRow title) strayProfile none = false := by
    intro s
    have hover : ¬ s.usedBytes + expertCost (strayRow title) strayProfile none ≤ payloadBudget := by
      rw [expertCost]
      omega
    simp [Selection.fitsExpert, hover]
  have hstep : selectExperts (.object (strayFields title)) base [(true, strayRow title)] =
      { usedBytes := base, omitted := [("claude", "a")] } := by
    simp [selectExperts, considerExpert, hfirst, hcard, hfull]
  have hoffers : offers (.object (strayFields title)) =
      [] ++ (true, strayRow title) :: ([] ++ (false, strayProfile) :: []) := rfl
  refine hnone [] (true, strayRow title) [] (false, strayProfile) [] ("claude", "a") hoffers
    ⟨strayProfile, hfirst, List.not_mem_nil, ?_⟩ ⟨strayProfile, hsecond, ?_⟩
  · rw [hcard]
    exact hfull _
  · have hprofile : valueCost strayProfile ≤ 100 := by decide
    rw [List.nil_append, hstep, hcard]
    refine ⟨List.not_mem_nil, ?_⟩
    have hfits : base + expertCost strayProfile strayProfile none ≤ payloadBudget := by
      rw [expertCost, Option.map_none, Option.getD_none]
      omega
    simp [Selection.fitsExpert, hfits, maxSnapshotSessions, maxSnapshotProfiles]

theorem bounded_snapshot_stray :
    ¬ ∀ fields : List (String × Value), envelopeBytes fields ≤ payloadBudget →
      (sessionRows (.object fields)).length < 2 ^ 64 →
      ∃ result, boundSnapshotForTransport (.object fields) = .ok result ∧
        Honest (.object fields) result (envelopeBytes fields) := by
  intro h
  have hcost := strayRow_cost payloadBudget
  generalize List.replicate payloadBudget 'x' = title at hcost
  have hbytes := envelopeBytes_strayFields title
  have hroom : envelopeBytes (strayFields []) + 200 ≤ payloadBudget := by decide
  have hrows : (sessionRows (.object (strayFields title))).length < 2 ^ 64 := by
    have htwo : (sessionRows (.object (strayFields title))).length = 2 := rfl
    omega
  rw [← hbytes] at hroom
  have hbase := Nat.le_of_add_right_le hroom
  have hhonest := (bound_honest_iff hbase hrows).mp (h _ hbase hrows)
  exact strayFields_readmits hcost hroom ((omitted_disjoint_iff _ _).mp hhonest)

end Pikamux.Fleet
