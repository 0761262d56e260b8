import Mathlib.Tactic.Common

/-!
# Support — Packing

Packing a stream into groups, greedily: an item goes into the open group when that still fits with
it, and otherwise closes it and opens the next.  An item that does not fit alone has a group of its
own.

* `flatten_pack` — no item is lost, added or moved.
* `pack_fits` — a group of more than one item fits.
* `pack_map` — packing commutes with a translation of the items.
-/

namespace Support

variable {α β : Type}

/-- The closed groups and the open one. -/
structure Packing (α : Type) where
  closed : List (List α) := []
  opened : List α := []

namespace Packing

variable (fits : List α → Bool)

def add (p : Packing α) (x : α) : Packing α :=
  if !p.opened.isEmpty && !fits (p.opened ++ [x]) then ⟨p.closed ++ [p.opened], [x]⟩
  else ⟨p.closed, p.opened ++ [x]⟩

def groups (p : Packing α) : List (List α) :=
  if p.opened.isEmpty then p.closed else p.closed ++ [p.opened]

/-- A group is worth closing. -/
def Good (group : List α) : Prop := group ≠ [] ∧ (1 < group.length → fits group = true)

/-- What holds of the groups at any time. -/
structure Inv (items : List α) (p : Packing α) : Prop where
  flatten : p.closed.flatten ++ p.opened = items
  closed : ∀ group ∈ p.closed, Good fits group
  opened : p.opened ≠ [] → Good fits p.opened

variable {fits} {items : List α} {p : Packing α}

theorem Inv.add (h : Inv fits items p) (x : α) : Inv fits (items ++ [x]) (p.add fits x) := by
  rw [Packing.add]
  split
  case isTrue hfull =>
    simp only [Bool.and_eq_true, Bool.not_eq_true', List.isEmpty_eq_false_iff] at hfull
    refine ⟨?_, ?_, ?_⟩
    · rw [List.flatten_concat, h.flatten]
    · intro group hgroup
      rcases List.mem_append.mp hgroup with hold | hnew
      · exact h.closed group hold
      · exact List.mem_singleton.mp hnew ▸ h.opened hfull.1
    · exact fun _ => ⟨List.cons_ne_nil x [], fun hlt => absurd hlt (by simp)⟩
  case isFalse hroom =>
    refine ⟨?_, h.closed, ?_⟩
    · rw [← List.append_assoc, h.flatten]
    · refine fun _ => ⟨by simp, fun hlt => ?_⟩
      -- the group had an item before, so it was asked whether it fits
      have hne : p.opened.isEmpty = false := by
        cases hopened : p.opened with
        | nil => simp [hopened] at hlt
        | cons => rfl
      simpa [hne] using hroom

theorem Inv.groups (h : Inv fits items p) :
    p.groups.flatten = items ∧ ∀ group ∈ p.groups, Good fits group := by
  rw [Packing.groups]
  split
  case isTrue hempty =>
    rw [List.isEmpty_iff] at hempty
    exact ⟨by simpa [hempty] using h.flatten, h.closed⟩
  case isFalse hne =>
    rw [List.isEmpty_iff] at hne
    refine ⟨by rw [List.flatten_concat, h.flatten], fun group hgroup => ?_⟩
    rcases List.mem_append.mp hgroup with hold | hnew
    · exact h.closed group hold
    · exact List.mem_singleton.mp hnew ▸ h.opened hne

end Packing

/-- Pack all of `items`. -/
def pack (fits : List α → Bool) (items : List α) : List (List α) :=
  (items.foldl (Packing.add fits) {}).groups

section Pack

variable {fits : List α → Bool} (items : List α)

theorem pack_inv (fits : List α → Bool) (items : List α) :
    Packing.Inv fits items (items.foldl (Packing.add fits) {}) := by
  have hfold : ∀ (rest done : List α) (p : Packing α), Packing.Inv fits done p →
      Packing.Inv fits (done ++ rest) (rest.foldl (Packing.add fits) p) := by
    intro rest
    induction rest with
    | nil => exact fun done p h => by simpa using h
    | cons x rest ih =>
        intro done p h
        have hnext := ih (done ++ [x]) (p.add fits x) (h.add x)
        rwa [List.append_assoc] at hnext
  exact hfold items [] {} ⟨rfl, by simp, by simp⟩

theorem flatten_pack : (pack fits items).flatten = items := (pack_inv fits items).groups.1

theorem pack_ne_nil {group : List α} (h : group ∈ pack fits items) : group ≠ [] :=
  ((pack_inv fits items).groups.2 group h).1

theorem pack_fits {group : List α} (h : group ∈ pack fits items) (hlt : 1 < group.length) :
    fits group = true :=
  ((pack_inv fits items).groups.2 group h).2 hlt

theorem pack_map (f : α → β) (fits : List β → Bool) :
    pack fits (items.map f) = (pack (fun group => fits (group.map f)) items).map (List.map f) := by
  have hfold : ∀ (rest : List α) (p : Packing α),
      (rest.map f).foldl (Packing.add fits) ⟨p.closed.map (List.map f), p.opened.map f⟩ =
        let q := rest.foldl (Packing.add fun group => fits (group.map f)) p
        ⟨q.closed.map (List.map f), q.opened.map f⟩ := by
    intro rest
    induction rest with
    | nil => exact fun _ => rfl
    | cons x rest ih =>
        intro p
        rw [List.map_cons, List.foldl_cons, List.foldl_cons, ← ih]
        congr 1
        simp only [Packing.add, List.map_append, List.map_cons, List.map_nil, List.isEmpty_map]
        split
        · simp
        · simp
  have hall := hfold items {}
  simp only [List.map_nil] at hall
  rw [pack, hall, pack]
  simp only [Packing.groups, List.isEmpty_map]
  split
  · rfl
  · simp

end Pack

end Support
