import Mathlib.Tactic.Common

/-!
# Assistant — Scope

`assistant_memory.rs`: who wrote a record, and the scope that material belongs to.
-/

namespace Pikamux.Memory

inductive Origin where
  | human
  | worker
  | system
  deriving DecidableEq, Repr, Inhabited

structure Scope where
  node : Option String := none
  project : Option String := none
  provider : Option String := none
  conversation : Option String := none
  deriving DecidableEq, Repr, Inhabited

def Scope.values (scope : Scope) : List (Option String) :=
  [scope.node, scope.project, scope.provider, scope.conversation]

/-- Material may be narrowed to a more specific scope, never broadened. -/
def Scope.permits (scope destination : Scope) : Bool :=
  (scope.values.zip destination.values).all fun (source, target) => source.isNone || source = target

theorem Scope.permits_iff {scope destination : Scope} : scope.permits destination = true ↔
    (scope.node = none ∨ scope.node = destination.node) ∧
    (scope.project = none ∨ scope.project = destination.project) ∧
    (scope.provider = none ∨ scope.provider = destination.provider) ∧
    (scope.conversation = none ∨ scope.conversation = destination.conversation) := by
  simp [permits, values]

@[simp] theorem Scope.permits_refl (scope : Scope) : scope.permits scope = true := by
  simp [permits_iff]

/-- Narrowing twice is narrowing. -/
theorem Scope.permits_trans {a b c : Scope} (hab : a.permits b = true) (hbc : b.permits c = true) :
    a.permits c = true := by
  rw [permits_iff] at *
  obtain ⟨h₁, h₂, h₃, h₄⟩ := hab
  obtain ⟨k₁, k₂, k₃, k₄⟩ := hbc
  refine ⟨?_, ?_, ?_, ?_⟩
  · rcases h₁ with h | h
    · exact .inl h
    · exact k₁.imp (h.trans ·) (h.trans ·)
  · rcases h₂ with h | h
    · exact .inl h
    · exact k₂.imp (h.trans ·) (h.trans ·)
  · rcases h₃ with h | h
    · exact .inl h
    · exact k₃.imp (h.trans ·) (h.trans ·)
  · rcases h₄ with h | h
    · exact .inl h
    · exact k₄.imp (h.trans ·) (h.trans ·)

end Pikamux.Memory
