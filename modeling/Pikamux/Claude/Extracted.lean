import Pikamux.Claude.Essence
import Pikamux.Claude.Index

/-!
# Claude — Extracted

What `Stream.extract` keeps of a record for the ancestry index.  A value read at a path is the
value `serde_json` reads, except that fields not kept are dropped, the text of a message is
emptied, and text beyond its bound is replaced by a marker (`Extracted`).  A record with plain
ownership fields and message identities within the text bound has the same essence extracted as
read in full (`alike_of_extract`).
-/

namespace Pikamux.Claude

open Support Json Claude.Stream

/-- `y` is what the ancestry pass keeps of `tree` at `path`. -/
def Extracted (path : List String) (tree y : Value) : Prop :=
  ∃ depth retained retained', value false path true depth retained tree = .ok (y, retained')

/-! ### Strings and scalars -/

theorem Extracted.below {path : List String} {tree y : Value} (h : Extracted path tree y) :
    ∃ depth retained retained', depth < 128 ∧
      value false path true depth retained tree = .ok (y, retained') := by
  obtain ⟨depth, retained, retained', h⟩ := h
  refine ⟨depth, retained, retained', ?_, h⟩
  by_contra hd
  have hdeep : value false path true depth retained tree =
      .error "Claude JSON recursion limit exceeded" := by
    cases tree <;> simp only [value, if_pos (Nat.le_of_not_lt hd)]
  rw [hdeep] at h
  cases h

theorem Extracted.string {path : List String} {s : String} {y : Value}
    (h : Extracted path (.string s) y) (hp : path ≠ ["message", "content"]) :
    y = .string s ∨
      (path.head? = some "message" ∧ s.utf8ByteSize > stringLimit path ∧ y = oversizedMarker) := by
  obtain ⟨depth, retained, retained', hd, h⟩ := h.below
  rw [value, if_neg (by omega)] at h
  simp only [stringValue, hp, and_false, if_false, Bool.true_eq_false] at h
  split at h
  · split at h
    case isTrue hl hm =>
      simp only [Except.ok.injEq, Prod.mk.injEq] at h
      exact .inr ⟨hm, hl, h.1.symm⟩
    case isFalse => cases h
  · simp only [bind_eq_ok, pure_eq_ok, Prod.mk.injEq] at h
    obtain ⟨_, -, rfl, -⟩ := h
    exact .inl rfl

theorem Extracted.content_string {s : String} {y : Value}
    (h : Extracted ["message", "content"] (.string s) y) : y = .string "" := by
  obtain ⟨depth, retained, retained', hd, h⟩ := h.below
  rw [value, if_neg (by omega)] at h
  simp only [stringValue, and_self, if_true, Except.ok.injEq, Prod.mk.injEq] at h
  exact h.1.symm

/-- Neither a string, an array nor an object. -/
def Scalar : Value → Prop
  | .null | .bool _ | .number _ => True
  | _ => False

theorem Extracted.scalar {path : List String} {tree y : Value} (ht : Scalar tree)
    (h : Extracted path tree y) : y = tree := by
  obtain ⟨depth, retained, retained', hd, h⟩ := h.below
  cases tree with
  | null | bool | number =>
      rw [value, if_neg (by omega)] at h
      · simp only [if_true, Except.ok.injEq, Prod.mk.injEq] at h
        exact h.1.symm
      all_goals nofun
  | _ => cases ht

/-! ### Objects -/

/-- The fields `kept` were extracted from the kept fields of `fields`. -/
inductive KeptFields (path : List String) :
    List (String × Value) → List (String × Value) → Prop where
  | nil : KeptFields path [] []
  | keep {key : String} {tree y : Value} {fields kept : List (String × Value)}
      (hk : keep false path key = true) (hx : Extracted (path ++ [key]) tree y)
      (t : KeptFields path fields kept) : KeptFields path ((key, tree) :: fields) ((key, y) :: kept)
  | drop {key : String} {tree : Value} {fields kept : List (String × Value)}
      (hk : Stream.keep false path key = false) (t : KeptFields path fields kept) :
      KeptFields path ((key, tree) :: fields) kept

theorem objectFields_kept {path : List String} {depth retained retained' : Nat}
    {object object' fields : List (String × Value)}
    (h : objectFields false path true depth retained object fields = .ok (object', retained')) :
    ∃ kept, object' = Value.insertFields object kept ∧ KeptFields path fields kept := by
  induction fields generalizing object retained with
  | nil =>
      rw [objectFields] at h
      simp only [Except.ok.injEq, Prod.mk.injEq] at h
      exact ⟨[], h.1.symm, .nil⟩
  | cons f fields ih =>
      obtain ⟨key, tree⟩ := f
      rw [objectFields] at h
      simp only [bind_eq_ok, Bool.true_and] at h
      obtain ⟨afterKey, -, h⟩ := h
      split at h
      case isTrue hkeep =>
        simp only [bind_eq_ok] at h
        obtain ⟨⟨v, afterValue⟩, hv, _, -, _, -, h⟩ := h
        obtain ⟨kept, rfl, hkept⟩ := ih h
        exact ⟨(key, v) :: kept, rfl, .keep hkeep ⟨depth, afterKey, afterValue, hv⟩ hkept⟩
      case isFalse hkeep =>
        simp only [bind_eq_ok] at h
        obtain ⟨_, -, h⟩ := h
        obtain ⟨kept, rfl, hkept⟩ := ih h
        exact ⟨kept, rfl, .drop (by simpa using hkeep) hkept⟩

theorem Extracted.object {path : List String} {fields : List (String × Value)} {y : Value}
    (h : Extracted path (.object fields) y) :
    ∃ kept, y = .object (Value.insertFields [] kept) ∧ KeptFields path fields kept := by
  obtain ⟨depth, retained, retained', hd, h⟩ := h.below
  rw [value, if_neg (by omega)] at h
  simp only [bind_eq_ok, pure_eq_ok, Prod.mk.injEq] at h
  obtain ⟨⟨object, r⟩, hf, _, -, rfl, -⟩ := h
  obtain ⟨kept, rfl, hkept⟩ := objectFields_kept hf
  exact ⟨kept, rfl, hkept⟩

namespace KeptFields

variable {path : List String} {fields kept : List (String × Value)}

/-- A kept key is found among the kept fields exactly when it is in the tree. -/
theorem lookup (h : KeptFields path fields kept) {key : String}
    (hk : Stream.keep false path key = true) :
    (fields.lookup key = none ∧ kept.lookup key = none) ∨
    ∃ tree y, fields.lookup key = some tree ∧ kept.lookup key = some y ∧
      Extracted (path ++ [key]) tree y := by
  induction h with
  | nil => exact .inl ⟨rfl, rfl⟩
  | @keep k tree y fields kept _ hx _ ih =>
      by_cases e : key = k
      · subst e
        exact .inr ⟨tree, y, by simp, by simp, hx⟩
      · have hb : (key == k) = false := by simpa using e
        simpa [List.lookup_cons, List.lookup_nil, hb] using ih
  | @drop k tree fields kept hd _ ih =>
      have hb : (key == k) = false := by
        rw [beq_eq_false_iff_ne]
        rintro rfl
        rw [hk] at hd
        cases hd
      simpa [List.lookup_cons, List.lookup_nil, hb] using ih

theorem append {fields' kept' : List (String × Value)} (h : KeptFields path fields kept)
    (h' : KeptFields path fields' kept') : KeptFields path (fields ++ fields') (kept ++ kept') := by
  induction h with
  | nil => exact h'
  | keep hk hx _ ih => exact .keep hk hx ih
  | drop hk _ ih => exact .drop hk ih

theorem reverse (h : KeptFields path fields kept) :
    KeptFields path fields.reverse kept.reverse := by
  induction h with
  | nil => exact .nil
  | keep hk hx _ ih =>
      rw [List.reverse_cons, List.reverse_cons]
      exact ih.append (.keep hk hx .nil)
  | @drop key tree fields kept hk _ ih =>
      rw [List.reverse_cons]
      have hdrop : KeptFields path [(key, tree)] [] := .drop hk .nil
      have := ih.append hdrop
      rwa [List.append_nil] at this

end KeptFields

/-! ### Arrays -/

theorem retainArrayValue_cases {path : List String} {before retained : Nat} {state state' : Items}
    {v : Value} (h : retainArrayValue path before state v retained = .ok state') :
    (state'.oversized = true ∧ path[2]? = some "content") ∨
    (state'.oversized = false ∧ state'.values = state.values ++ [v]) := by
  simp only [retainArrayValue, bind_eq_ok] at h
  obtain ⟨r, -, h⟩ := h
  split at h
  case isTrue hb =>
    rw [pure_eq_ok] at h
    simp only [Bool.and_eq_true, decide_eq_true_eq] at hb
    exact .inl ⟨by rw [← h], hb.1.2⟩
  case isFalse =>
    rw [pure_eq_ok] at h
    exact .inr ⟨by rw [← h], by rw [← h]⟩

theorem arrayItems_kept {path : List String} {depth before : Nat} {state state' : Items}
    {items : List Value} (h : arrayItems false path true depth before state items = .ok state')
    (hs : state.oversized = true → path[2]? = some "content") :
    (state'.oversized = true ∧ path[2]? = some "content") ∨
    (state.oversized = false ∧ state'.oversized = false ∧
      ∃ ys, state'.values = state.values ++ ys ∧ List.Forall₂ (Extracted path) items ys) := by
  induction items generalizing state with
  | nil =>
      rw [arrayItems, Except.ok.injEq] at h
      subst h
      cases ho : state.oversized with
      | true => exact .inl ⟨rfl, hs ho⟩
      | false => exact .inr ⟨rfl, rfl, [], by simp, .nil⟩
  | cons tree items ih =>
      rw [arrayItems] at h
      simp only [bind_eq_ok, Bool.true_and, addItem] at h
      obtain ⟨⟨v, retained⟩, hv, state₁, h₁, h⟩ := h
      cases ho : state.oversized with
      | true =>
          simp only [ho, Bool.not_true, Bool.false_eq_true, if_false, Except.ok.injEq] at h₁
          subst h₁
          rcases ih h (fun _ => hs ho) with hr | hr
          · exact .inl hr
          · exact absurd hr.1 (by simp)
      | false =>
          simp only [ho, Bool.not_false, if_true] at h₁ hv
          rcases retainArrayValue_cases h₁ with ⟨ho₁, hp⟩ | ⟨ho₁, hvals⟩
          · rcases ih h (fun _ => hp) with hr | hr
            · exact .inl hr
            · simp [ho₁] at hr
          · rcases ih h (fun e => by rw [ho₁] at e; cases e) with hr | ⟨-, ho', ys, hys, hall⟩
            · exact .inl hr
            · refine .inr ⟨rfl, ho', v :: ys, ?_, .cons ⟨depth, state.retained, retained, hv⟩ hall⟩
              rw [hys, hvals, List.append_assoc, List.singleton_append]

theorem Extracted.array {path : List String} {items : List Value} {y : Value}
    (h : Extracted path (.array items) y) :
    (y = oversizedMarker ∧ path[2]? = some "content") ∨
    ∃ ys, y = .array ys ∧ List.Forall₂ (Extracted path) items ys := by
  obtain ⟨depth, retained, retained', hd, h⟩ := h.below
  rw [value, if_neg (by omega)] at h
  simp only [bind_eq_ok] at h
  obtain ⟨state, hs, h⟩ := h
  rcases arrayItems_kept hs (fun e => by cases e) with ⟨ho, hp⟩ | ⟨-, ho, ys, hys, hall⟩
  · rw [ho, if_pos rfl, pure_eq_ok] at h
    exact .inl ⟨(Prod.mk.inj h).1.symm, hp⟩
  · rw [ho, if_neg (by decide), pure_eq_ok] at h
    refine .inr ⟨ys, ?_, hall⟩
    rw [← (Prod.mk.inj h).1, hys, List.nil_append]

/-- What becomes of a value of each kind. -/
inductive Shape (path : List String) : Value → Value → Prop where
  | scalar {v : Value} (hv : Scalar v) : Shape path v v
  | string {s : String} (hp : path ≠ ["message", "content"]) : Shape path (.string s) (.string s)
  | emptied {s : String} (hp : path = ["message", "content"]) :
      Shape path (.string s) (.string "")
  | long {s : String} (hm : path.head? = some "message") (hl : stringLimit path < s.utf8ByteSize) :
      Shape path (.string s) oversizedMarker
  | array {items ys : List Value} (h : List.Forall₂ (Extracted path) items ys) :
      Shape path (.array items) (.array ys)
  | givenUp {items : List Value} (hp : path[2]? = some "content") :
      Shape path (.array items) oversizedMarker
  | object {fields kept : List (String × Value)} (h : KeptFields path fields kept) :
      Shape path (.object fields) (.object (Value.insertFields [] kept))

theorem Scalar.ofTree {v : Value} (h : Scalar v) : Value.ofTree v = v := by
  cases v with
  | null | bool | number => rfl
  | _ => cases h

theorem Scalar.get? {v : Value} (h : Scalar v) (key : String) : v.get? key = none := by
  cases v with
  | null | bool | number => rfl
  | _ => cases h

theorem Extracted.shape {path : List String} {tree y : Value} (h : Extracted path tree y) :
    Shape path tree y := by
  cases tree with
  | string s =>
      by_cases hp : path = ["message", "content"]
      · subst hp
        rw [h.content_string]
        exact .emptied rfl
      · rcases h.string hp with rfl | ⟨hm, hl, rfl⟩
        · exact .string hp
        · exact .long hm hl
  | array items =>
      rcases h.array with ⟨rfl, hp⟩ | ⟨ys, rfl, hall⟩
      · exact .givenUp hp
      · exact .array hall
  | object fields =>
      obtain ⟨kept, rfl, hkept⟩ := h.object
      exact .object hkept
  | null =>
      rw [h.scalar (show Scalar .null from trivial)]
      exact .scalar trivial
  | bool b =>
      rw [h.scalar (show Scalar (.bool b) from trivial)]
      exact .scalar trivial
  | number n =>
      rw [h.scalar (show Scalar (.number n) from trivial)]
      exact .scalar trivial

/-! ### Fields -/

/-- The field `key` is missing from both values, or in both and extracted. -/
def FieldExtracted (path : List String) (key : String) (w y : Value) : Prop :=
  (w.get? key = none ∧ y.get? key = none) ∨
  ∃ tree x, w.get? key = some (.ofTree tree) ∧ y.get? key = some x ∧
    Extracted (path ++ [key]) tree x

theorem get?_oversizedMarker {key : String} (hm : key ≠ "_pikaOversizedText") :
    oversizedMarker.get? key = none := by
  simp [oversizedMarker, Value.get?, List.lookup_cons, List.lookup_nil, beq_eq_false_iff_ne.mpr hm]

/-- **A kept field.**  It is missing from both values, or in both and extracted. -/
theorem Extracted.field {path : List String} {tree y : Value} (h : Extracted path tree y)
    {key : String} (hk : keep false path key = true) (hm : key ≠ "_pikaOversizedText") :
    FieldExtracted path key (.ofTree tree) y := by
  cases h.shape with
  | object hkept =>
      rw [FieldExtracted, Value.get?_ofTree_object, Value.get?, Value.lookup_insertFields]
      rcases hkept.reverse.lookup hk with ⟨hf, hy⟩ | ⟨x, z, hf, hy, hx⟩
      · exact .inl ⟨by rw [hf]; rfl, by rw [hy]; rfl⟩
      · exact .inr ⟨x, z, by rw [hf]; rfl, by rw [hy]; rfl, hx⟩
  | scalar hv => exact .inl ⟨by rw [hv.ofTree, hv.get?], hv.get? key⟩
  | string | emptied | array => exact .inl ⟨rfl, rfl⟩
  | long | givenUp => exact .inl ⟨rfl, get?_oversizedMarker hm⟩

namespace FieldExtracted

variable {path : List String} {key : String} {w y : Value}

/-- What extraction keeps of a value, `null` included, holds of a field read by its key. -/
theorem getElem (h : FieldExtracted path key w y) {P : Value → Value → Prop} (hn : P .null .null)
    (hx : ∀ tree x, w[key] = .ofTree tree → Extracted (path ++ [key]) tree x → P (.ofTree tree) x) :
    P w[key] y[key] := by
  rcases h with ⟨hw, hy⟩ | ⟨tree, x, hw, hy, h⟩
  · rw [Value.getElem_eq, Value.getElem_eq, hw, hy]
    exact hn
  · have hwx : w[key] = .ofTree tree := by rw [Value.getElem_eq, hw]; rfl
    rw [hwx, Value.getElem_eq y, hy]
    exact hx tree x hwx h

theorem isNone_eq (h : FieldExtracted path key w y) :
    (y.get? key).isNone = (w.get? key).isNone := by
  rcases h with ⟨hw, hy⟩ | ⟨tree, x, hw, hy, -⟩
  · rw [hw, hy]
  · rw [hw, hy]
    rfl

end FieldExtracted

/-! ### Strings, booleans and null -/

theorem Extracted.isNull_eq {path : List String} {tree y : Value} (h : Extracted path tree y) :
    y.isNull = (Value.ofTree tree).isNull := by
  cases h.shape with
  | scalar hv => rw [hv.ofTree]
  | _ => rfl

/-- `w` and `y` are the same to `as_str`, `as_bool` and `is_null`. -/
structure SameScalar (w y : Value) : Prop where
  str : strOrNull y = strOrNull w
  bool : boolOrNull y = boolOrNull w
  null : y.isNull = w.isNull

namespace SameScalar

variable {w y : Value}

theorem asStr_eq (h : SameScalar w y) : y.asStr = w.asStr := by
  rw [← asStr_strOrNull, h.str, asStr_strOrNull]

theorem asBool_eq (h : SameScalar w y) : y.asBool = w.asBool := by
  rw [← asBool_boolOrNull, h.bool, asBool_boolOrNull]

theorem isString_eq (h : SameScalar w y) : y.isString = w.isString := by
  have hs := h.asStr_eq
  cases w <;> cases y <;> simp_all [Value.asStr, Value.isString]

end SameScalar

/-- Outside a message a string is extracted as it is. -/
theorem Extracted.sameScalar {path : List String} {tree y : Value} (h : Extracted path tree y)
    (hp : path.head? ≠ some "message") : SameScalar (.ofTree tree) y := by
  cases h.shape with
  | scalar hv =>
      rw [hv.ofTree]
      exact ⟨rfl, rfl, rfl⟩
  | emptied hc => exact absurd (by rw [hc]; rfl) hp
  | long hm => exact absurd hm hp
  | _ => exact ⟨rfl, rfl, rfl⟩

theorem FieldExtracted.sameScalar {path : List String} {key : String} {w y : Value}
    (h : FieldExtracted path key w y) (hp : (path ++ [key]).head? ≠ some "message") :
    SameScalar w[key] y[key] :=
  h.getElem ⟨rfl, rfl, rfl⟩ fun _ _ _ hx => hx.sameScalar hp

/-- Inside one a string within its bound is. -/
theorem Extracted.strOrNull_eq {path : List String} {tree y : Value} (h : Extracted path tree y)
    (hp : path ≠ ["message", "content"])
    (hb : ∀ s, Value.ofTree tree = .string s → s.utf8ByteSize ≤ stringLimit path) :
    strOrNull y = strOrNull (.ofTree tree) := by
  cases h.shape with
  | scalar hv => rw [hv.ofTree]
  | emptied hc => exact absurd hc hp
  | long _ hl => exact absurd (hb _ rfl) (by omega)
  | _ => rfl

/-- A known string is within any bound that all known ones are. -/
theorem Extracted.knownOrNull_eq {path known : List String} {tree y : Value}
    (h : Extracted path tree y) (hp : path ≠ ["message", "content"])
    (hk : ∀ s ∈ known, s.utf8ByteSize ≤ stringLimit path) :
    knownOrNull known y = knownOrNull known (.ofTree tree) := by
  cases h.shape with
  | scalar hv => rw [hv.ofTree]
  | emptied hc => exact absurd hc hp
  | @long s _ hl =>
      have hs : s ∉ known := fun hs => absurd (hk s hs) (by omega)
      simp [Value.ofTree, knownOrNull, hs, oversizedMarker]
  | _ => rfl

mutual

/-- No object inside has a field. -/
def plain : Value → Bool
  | .object fields => fields.isEmpty
  | .array items => plainItems items
  | _ => true

def plainItems : List Value → Bool
  | [] => true
  | v :: vs => plain v && plainItems vs

end

theorem plainItems_eq (items : List Value) : plainItems items = items.all plain := by
  induction items with
  | nil => rfl
  | cons v items ih => rw [plainItems, ih, List.all_cons]

theorem KeptFields.eq_nil {path : List String} {fields kept : List (String × Value)}
    (h : KeptFields path fields kept) (hk : ∀ key, Stream.keep false path key = false) :
    kept = [] := by
  induction h with
  | nil => rfl
  | keep hkeep _ _ _ => exact absurd hkeep (by simp [hk])
  | drop _ _ ih => exact ih

/-- The items of an extracted array are those read, for a function that does not tell each
apart. -/
theorem map_eq_of_extracted {path : List String} {items ys : List Value} {f : Value → Value}
    (h : List.Forall₂ (Extracted path) items ys)
    (hf : ∀ tree ∈ items, ∀ y, Extracted path tree y → f y = f (.ofTree tree)) :
    ys.map f = (Value.ofTreeItems items).map f := by
  induction h with
  | nil => rfl
  | cons hx _ ih =>
      rw [Value.ofTreeItems, List.map_cons, List.map_cons, hf _ (List.mem_cons_self ..) _ hx,
        ih fun t ht => hf t (List.mem_cons_of_mem _ ht)]

/-- A plain value is extracted as it is where no field is kept. -/
theorem Extracted.plain_eq {path : List String} (hk : ∀ key, keep false path key = false)
    (hm : path.head? ≠ some "message") (hc : path[2]? ≠ some "content") (tree : Value)
    {y : Value} (h : Extracted path tree y) (hp : plain (.ofTree tree) = true) :
    y = .ofTree tree := by
  match tree, h.shape with
  | _, .scalar hv => rw [hv.ofTree]
  | .string _, .string _ => rfl
  | .string _, .emptied e => exact absurd (by rw [e]; rfl) hm
  | .string _, .long e _ => exact absurd e hm
  | .array _, .givenUp e => exact absurd e hc
  | .object fields, .object hkept =>
      rw [Value.ofTree, plain, List.isEmpty_iff] at hp
      rw [Value.ofTree, hp, hkept.eq_nil hk]
      rfl
  | .array items, @Shape.array _ _ ys hall =>
      rw [Value.ofTree, plain, plainItems_eq, Value.ofTreeItems_eq, List.all_map,
        List.all_eq_true] at hp
      have hmap : ys.map id = (Value.ofTreeItems items).map id :=
        map_eq_of_extracted hall fun t ht x hx => plain_eq hk hm hc t hx (hp t ht)
      rw [List.map_id, List.map_id] at hmap
      rw [Value.ofTree, hmap]
termination_by sizeOf tree

/-! ### Messages -/

/-- A string, if it is one, is within the bound on text. -/
def TextBounded (v : Value) : Prop := (v.asStr.map String.utf8ByteSize).getD 0 ≤ textBytes

instance (v : Value) : Decidable (TextBounded v) := inferInstanceAs (Decidable (_ ≤ _))

theorem TextBounded.string {v : Value} {s : String} (h : TextBounded v) (hv : v = .string s) :
    s.utf8ByteSize ≤ textBytes := by
  subst hv
  exact h

/-- The identities of a message and its blocks are within the bound on text. -/
structure IdsBounded (message : Value) : Prop where
  id : TextBounded message["id"]
  block : ∀ b ∈ message["content"].items, TextBounded b["id"] ∧ TextBounded b["tool_use_id"]

instance (message : Value) : Decidable (IdsBounded message) :=
  decidable_of_iff (TextBounded message["id"] ∧ message["content"].items.all
      (fun b => decide (TextBounded b["id"]) && decide (TextBounded b["tool_use_id"])) = true)
    ⟨fun h => ⟨h.1, by simpa using h.2⟩, fun h => ⟨h.id, by simpa using h.block⟩⟩

theorem Extracted.essenceBlock_eq {tree y : Value} (h : Extracted ["message", "content"] tree y)
    (hid : TextBounded (Value.ofTree tree)["id"])
    (huse : TextBounded (Value.ofTree tree)["tool_use_id"]) :
    essenceBlock y = essenceBlock (.ofTree tree) := by
  have hstr : ∀ key : String, keep false ["message", "content"] key = true →
      stringLimit ["message", "content", key] = textBytes → key ≠ "_pikaOversizedText" →
      TextBounded (Value.ofTree tree)[key] → strOrNull y[key] = strOrNull (Value.ofTree tree)[key] := by
    intro key hk hl hm hb
    refine (h.field hk hm).getElem (P := fun w y => strOrNull y = strOrNull w) rfl ?_
    intro t x ht hx
    refine hx.strOrNull_eq (by simp) fun s hs => ?_
    rw [List.cons_append, List.cons_append, List.nil_append, hl]
    exact hb.string (ht.trans hs)
  have htype : knownOrNull blockTypes y["type"] =
      knownOrNull blockTypes (Value.ofTree tree)["type"] := by
    refine (h.field (by decide) (by decide)).getElem
      (P := fun w y => knownOrNull blockTypes y = knownOrNull blockTypes w) rfl ?_
    intro t x _ hx
    exact hx.knownOrNull_eq (by simp) (by decide)
  rw [essenceBlock, essenceBlock, htype, hstr "id" (by decide) (by decide) (by decide) hid,
    hstr "tool_use_id" (by decide) (by decide) (by decide) huse]

theorem Extracted.essenceContent_eq {tree y : Value} (h : Extracted ["message", "content"] tree y)
    (hb : ∀ b ∈ (Value.ofTree tree).items, TextBounded b["id"] ∧ TextBounded b["tool_use_id"]) :
    essenceContent y = essenceContent (.ofTree tree) := by
  cases h.shape with
  | @array items ys hall =>
      rw [Value.ofTree, essenceContent, essenceContent, map_eq_of_extracted hall]
      intro t ht x hx
      have hmem : Value.ofTree t ∈ (Value.ofTree (.array items)).items := by
        rw [Value.ofTree, Value.ofTreeItems_eq]
        exact List.mem_map_of_mem ht
      obtain ⟨hid, huse⟩ := hb _ hmem
      exact hx.essenceBlock_eq hid huse
  | scalar hv => rw [hv.ofTree]
  | givenUp hp => exact absurd hp (by decide)
  | _ => rfl

theorem essenceMessage_of_not_null {v : Value} (h : v.isNull = false) :
    essenceMessage v = .object [("content", essenceContent v["content"]),
      ("id", strOrNull v["id"]), ("role", knownOrNull roles v["role"])] := by
  cases v with
  | null => cases h
  | _ => rfl

theorem essenceMessage_of_null {v : Value} (h : v.isNull = true) : essenceMessage v = .null := by
  cases v with
  | null => rfl
  | _ => cases h

theorem Extracted.essenceMessage_eq {tree y : Value} (h : Extracted ["message"] tree y)
    (hb : IdsBounded (.ofTree tree)) : essenceMessage y = essenceMessage (.ofTree tree) := by
  cases hn : (Value.ofTree tree).isNull with
  | true => rw [essenceMessage_of_null hn, essenceMessage_of_null (h.isNull_eq.trans hn)]
  | false =>
      have hid : strOrNull y["id"] = strOrNull (Value.ofTree tree)["id"] := by
        refine (h.field (by decide) (by decide)).getElem
          (P := fun w y => strOrNull y = strOrNull w) rfl ?_
        intro t x ht hx
        exact hx.strOrNull_eq (by simp) fun s hs => hb.id.string (ht.trans hs)
      have hrole : knownOrNull roles y["role"] = knownOrNull roles (Value.ofTree tree)["role"] := by
        refine (h.field (by decide) (by decide)).getElem
          (P := fun w y => knownOrNull roles y = knownOrNull roles w) rfl ?_
        intro t x _ hx
        exact hx.knownOrNull_eq (by simp) (by decide)
      have hcontent : essenceContent y["content"] =
          essenceContent (Value.ofTree tree)["content"] := by
        refine (h.field (by decide) (by decide)).getElem
          (P := fun w y => essenceContent y = essenceContent w) rfl ?_
        intro t x ht hx
        exact hx.essenceContent_eq (ht ▸ hb.block)
      rw [essenceMessage_of_not_null hn, essenceMessage_of_not_null (h.isNull_eq.trans hn), hid,
        hrole, hcontent]

/-! ### Compaction metadata -/

theorem KeptFields.map_eq {path : List String} {fields kept : List (String × Value)}
    (h : KeptFields path fields kept) (hk : ∀ key, Stream.keep false path key = true)
    {f : String → Value → Value}
    (hf : ∀ key tree y, Extracted (path ++ [key]) tree y → f key y = f key (.ofTree tree)) :
    kept.map (fun e => (e.1, f e.1 e.2)) =
      (Value.ofTreeFields fields).map fun e => (e.1, f e.1 e.2) := by
  induction h with
  | nil => rfl
  | keep _ hx _ ih => rw [Value.ofTreeFields, List.map_cons, List.map_cons, ih, hf _ _ _ hx]
  | drop hd _ _ => exact absurd hd (by simp [hk])

/-- A function of all fields does not tell the extracted object from the one read. -/
theorem Extracted.mapFields_eq {path : List String} {tree y : Value} (h : Extracted path tree y)
    (hk : ∀ key, keep false path key = true) (hp : path.head? ≠ some "message")
    (hc : path[2]? ≠ some "content") {f : String → Value → Value}
    (hf : ∀ key tree y, Extracted (path ++ [key]) tree y → f key y = f key (.ofTree tree)) :
    mapFields f y = mapFields f (.ofTree tree) := by
  cases h.shape with
  | object hkept =>
      rw [Value.ofTree, mapFields, mapFields, Value.map_insertFields, Value.map_insertFields,
        hkept.map_eq hk hf]
  | scalar hv => rw [hv.ofTree]
  | long hm => exact absurd hm hp
  | givenUp hm => exact absurd hm hc
  | _ => rfl

theorem Extracted.essenceIds_eq {path : List String} {tree y : Value} (h : Extracted path tree y)
    (hp : path.head? ≠ some "message") (hc : path[2]? ≠ some "content") :
    essenceIds y = essenceIds (.ofTree tree) := by
  cases h.shape with
  | array hall =>
      rw [Value.ofTree, essenceIds, essenceIds, map_eq_of_extracted hall]
      intro t _ x hx
      exact (hx.sameScalar hp).str
  | scalar hv => rw [hv.ofTree]
  | givenUp hm => exact absurd hm hc
  | _ => rfl

theorem Extracted.essenceCompact_eq {tree y : Value} (h : Extracted ["compactMetadata"] tree y) :
    essenceCompact y = essenceCompact (.ofTree tree) := by
  refine h.mapFields_eq (fun _ => rfl) (by decide) (by decide) fun key t x hx => ?_
  by_cases hl : key = "preservedMessages"
  · subst hl
    simp only [if_true]
    refine hx.mapFields_eq (fun _ => rfl) (by decide) (by decide) fun key' t' x' hx' => ?_
    by_cases hu : key' = "uuids"
    · subst hu
      simp only [if_pos]
      exact hx'.essenceIds_eq (by decide) (by decide)
    · simp only [if_neg hu]
      exact (hx'.sameScalar (by simp)).str
  · by_cases hs : key = "preservedSegment"
    · subst hs
      simp only [if_neg hl, if_pos]
      refine hx.mapFields_eq (fun _ => rfl) (by decide) (by decide) fun key' t' x' hx' => ?_
      exact (hx'.sameScalar (by simp)).str
    · simp only [if_neg hl, if_neg hs]

end Pikamux.Claude
