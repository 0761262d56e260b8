import Mathlib.Tactic.Common

/-!
# Support — Release

A one-use release: a text is admitted once, then fetched once, then answered once, and each of the
two consumes a proof attested since the last of them.  This is the cell one such text lives in,
with its steps; `Explained` is what a run leaves in it, and the properties of runs follow from that.
-/

namespace Support

/-- An admitted text, whether it was fetched, its answer, and the proof that may be consumed. -/
structure Cell (τ π ρ : Type) where
  text : τ
  released : Bool
  reply : Option ρ
  proof : Option π

inductive Act (τ π ρ : Type) where
  | admitText (text : τ)
  | attest (proof : π)
  | fetch (proof : π) (text : τ)
  | reply (proof : π) (answer : ρ)
  | other

variable {τ π ρ : Type}

namespace Act

def isFetch : Act τ π ρ → Bool
  | fetch .. => true
  | _ => false

def isReply : Act τ π ρ → Bool
  | reply .. => true
  | _ => false

/-- The proof an action consumes. -/
def uses : Act τ π ρ → Option π
  | fetch p _ | reply p _ => some p
  | _ => none

end Act

/-- One step of a cell, which is none until a text is admitted. -/
inductive CellStep : Option (Cell τ π ρ) → Act τ π ρ → Option (Cell τ π ρ) → Prop where
  | admitText (text : τ) : CellStep none (.admitText text) (some ⟨text, false, none, none⟩)
  | attest {c : Cell τ π ρ} (p : π) :
      CellStep (some c) (.attest p) (some { c with proof := some p })
  | fetch {c : Cell τ π ρ} {p : π} (hp : c.proof = some p) (hr : c.released = false) :
      CellStep (some c) (.fetch p c.text) (some { c with released := true, proof := none })
  | reply {c : Cell τ π ρ} {p : π} (r : ρ) (hp : c.proof = some p) (hr : c.released = true)
      (hn : c.reply = none) :
      CellStep (some c) (.reply p r) (some { c with reply := some r, proof := none })
  | other (c : Option (Cell τ π ρ)) : CellStep c .other c

/-- What the actions `acts` leave in a cell. -/
structure Explained (acts : List (Act τ π ρ)) (cell : Option (Cell τ π ρ)) : Prop where
  fresh : cell = none → ∀ a ∈ acts, a = .other
  text : ∀ c, cell = some c → .admitText c.text ∈ acts
  released : ∀ c, cell = some c → (c.released = true ↔ ∃ a ∈ acts, a.isFetch = true)
  reply : ∀ c, cell = some c → (c.reply.isSome = true ↔ ∃ a ∈ acts, a.isReply = true)
  proof : ∀ c p, cell = some c → c.proof = some p →
    ∃ pre post, acts = pre ++ .attest p :: post ∧ ∀ a ∈ post, a.uses = none

theorem Explained.nil : Explained ([] : List (Act τ π ρ)) none :=
  ⟨fun _ a h => by simp at h, fun _ h => by simp at h, fun _ h => by simp at h,
    fun _ h => by simp at h, fun _ _ h => by simp at h⟩

/-- One more action explains the next state of the cell. -/
theorem Explained.step {acts : List (Act τ π ρ)} {cell cell' : Option (Cell τ π ρ)}
    {a : Act τ π ρ} (h : Explained acts cell) (hs : CellStep cell a cell') :
    Explained (acts ++ [a]) cell' := by
  cases hs with
  | admitText text =>
      have hother := h.fresh rfl
      refine ⟨nofun, ?_, ?_, ?_, ?_⟩
      · rintro c ⟨⟩
        simp
      · rintro c ⟨⟩
        simp only [Bool.false_eq_true, false_iff]
        rintro ⟨b, hb, hf⟩
        rcases List.mem_append.mp hb with hb | hb
        · rw [hother b hb] at hf
          cases hf
        · rw [List.mem_singleton.mp hb] at hf
          cases hf
      · rintro c ⟨⟩
        simp only [Option.isSome_none, Bool.false_eq_true, false_iff]
        rintro ⟨b, hb, hf⟩
        rcases List.mem_append.mp hb with hb | hb
        · rw [hother b hb] at hf
          cases hf
        · rw [List.mem_singleton.mp hb] at hf
          cases hf
      · rintro c p ⟨⟩ hp
        cases hp
  | @attest c p =>
      refine ⟨nofun, ?_, ?_, ?_, ?_⟩
      · rintro _ ⟨⟩
        exact List.mem_append_left _ (h.text c rfl)
      · rintro _ ⟨⟩
        simpa [Act.isFetch] using h.released c rfl
      · rintro _ ⟨⟩
        simpa [Act.isReply] using h.reply c rfl
      · rintro _ q ⟨⟩ hq
        cases hq
        exact ⟨acts, [], rfl, by simp⟩
  | @fetch c p hp hr =>
      refine ⟨nofun, ?_, ?_, ?_, ?_⟩
      · rintro _ ⟨⟩
        exact List.mem_append_left _ (h.text c rfl)
      · rintro _ ⟨⟩
        simp [Act.isFetch]
      · rintro _ ⟨⟩
        simpa [Act.isReply] using h.reply c rfl
      · rintro _ q ⟨⟩ hq
        cases hq
  | @reply c p r hp hr hn =>
      refine ⟨nofun, ?_, ?_, ?_, ?_⟩
      · rintro _ ⟨⟩
        exact List.mem_append_left _ (h.text c rfl)
      · rintro _ ⟨⟩
        simpa [Act.isFetch] using h.released c rfl
      · rintro _ ⟨⟩
        simp [Act.isReply]
      · rintro _ q ⟨⟩ hq
        cases hq
  | other =>
      refine ⟨?_, ?_, ?_, ?_, ?_⟩
      · intro hn b hb
        rcases List.mem_append.mp hb with hb | hb
        · exact h.fresh hn b hb
        · exact List.mem_singleton.mp hb
      · intro c hc
        exact List.mem_append_left _ (h.text c hc)
      · intro c hc
        simpa [Act.isFetch] using h.released c hc
      · intro c hc
        simpa [Act.isReply] using h.reply c hc
      · intro c p hc hp
        obtain ⟨pre, post, rfl, hpost⟩ := h.proof c p hc hp
        refine ⟨pre, post ++ [.other], by simp, fun a ha => ?_⟩
        rcases List.mem_append.mp ha with ha | ha
        · exact hpost a ha
        · rw [List.mem_singleton.mp ha]
          rfl

section Next

variable {acts : List (Act τ π ρ)} {cell cell' : Option (Cell τ π ρ)} {p : π}

/-- A text is fetched for the first time, and it is the admitted one. -/
theorem Explained.fetch {text : τ} (h : Explained acts cell)
    (hs : CellStep cell (.fetch p text) cell') :
    (∀ a ∈ acts, a.isFetch = false) ∧ .admitText text ∈ acts := by
  cases hs with
  | @fetch c _ _ hr =>
      refine ⟨fun a ha => ?_, h.text c rfl⟩
      by_contra hf
      have := (h.released c rfl).mpr ⟨a, ha, by simpa using hf⟩
      rw [hr] at this
      cases this

/-- An answer is the first one, and comes after a fetch. -/
theorem Explained.answer {r : ρ} (h : Explained acts cell)
    (hs : CellStep cell (.reply p r) cell') :
    (∀ a ∈ acts, a.isReply = false) ∧ ∃ a ∈ acts, a.isFetch = true := by
  cases hs with
  | @reply c _ _ _ hr hn =>
      refine ⟨fun a ha => ?_, (h.released c rfl).mp hr⟩
      by_contra hf
      have := (h.reply c rfl).mpr ⟨a, ha, by simpa using hf⟩
      rw [hn] at this
      cases this

/-- A consumed proof was attested, and nothing has been consumed since. -/
theorem Explained.consumed {a : Act τ π ρ} (h : Explained acts cell) (hs : CellStep cell a cell')
    (ha : a.uses = some p) :
    ∃ pre post, acts = pre ++ .attest p :: post ∧ ∀ a ∈ post, a.uses = none := by
  cases hs with
  | fetch hp | reply _ hp =>
      cases ha
      exact h.proof _ _ rfl hp
  | _ => cases ha

end Next

/-- An admitted text never changes, and a stored answer stays. -/
theorem CellStep.kept {c : Cell τ π ρ} {a : Act τ π ρ} {cell' : Option (Cell τ π ρ)}
    (h : CellStep (some c) a cell') :
    ∃ c', cell' = some c' ∧ c'.text = c.text ∧ ∀ r, c.reply = some r → c'.reply = some r := by
  cases h with
  | attest | fetch | other => exact ⟨_, rfl, rfl, fun _ h => h⟩
  | reply _ _ _ hn =>
      refine ⟨_, rfl, rfl, fun r hr => ?_⟩
      rw [hn] at hr
      cases hr

end Support
