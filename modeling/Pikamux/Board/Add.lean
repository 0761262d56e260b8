import Mathlib.Data.String.Basic
import Pikamux.Board.Ledger
import Pikamux.Json.Sizes
import Pikamux.Support.Lines
import Pikamux.Terminal.Frame

/-!
# Board — Add

The panel that adds a conversation to the board: it shows the sources, loads the candidates of one,
lets one be chosen and confirmed, and has it adopted.  Keys and the replies of its workers come in
any order.

* `key_step` — what a key can do, by the state it meets; `poll_received` — what replies can do.
* `Invariant` — what holds of a panel at any time: where a candidate can be chosen, the one that is
  selected is shown, and a confirmation was opened for it by a key.
* `adopts_what_was_confirmed` — what is adopted was confirmed, and at most once.
-/

namespace Pikamux.BoardAdd

open Support Json

abbrev Text := List Char

def maxCandidates : Nat := 200

def maxQueryBytes : Nat := 1024

def maxFieldChars : Nat := 180

structure Source where
  id : Option Text
  label : Text
  deriving DecidableEq, Repr

/-- A conversation of a provider; `τ` are times. -/
structure Candidate (τ : Type) where
  provider : Provider
  sessionId : Text
  name : Option Text := none
  cwd : Option Text := none
  branch : Option Text := none
  model : Option Text := none
  updatedAt : τ
  deriving DecidableEq

inductive Reply (τ : Type) where
  | loaded (generation : UInt64) (result : Except Text (List (Candidate τ)))
  | adopted (generation : UInt64) (result : Except Text Text)

structure Pick (τ : Type) where
  source : Source
  candidates : List (Candidate τ)
  selected : Nat
  query : Text
  error : Option Text
  deriving DecidableEq

inductive State (τ : Type) where
  | sources (selected : Nat)
  | loading (source : Source)
  | candidates (pick : Pick τ)
  | confirm (pick : Pick τ)
  | mutating (source : Source) (candidate : Candidate τ)
  | finished (message : Text)
  deriving DecidableEq

inductive KeyAction (τ : Type) where
  | none
  | close
  | cancelWorker
  | load (source : Source)
  | confirm
  | back
  | adopt (source : Source) (candidate : Candidate τ)

/-- A worker that was started, with the generation its reply will have. -/
inductive Work (τ : Type) where
  | load (source : Source) (generation : UInt64)
  | adopt (source : Source) (candidate : Candidate τ) (generation : UInt64)
  deriving DecidableEq

structure Panel (τ : Type) where
  sources : List Source
  state : State τ
  inbox : List (Reply τ) := []
  /-- Whether the token of the last worker is cancelled. -/
  cancelled : Bool := false
  generation : UInt64 := 0
  closingNotice : Option Text := none
  started : List (Work τ) := []

/-! ### Keys -/

inductive KeyEventKind where
  | press
  | repeat
  | release
  deriving DecidableEq, Repr

inductive KeyCode where
  | enter
  | esc
  | up
  | down
  | home
  | end
  | backspace
  | char (c : Char)
  | other
  deriving DecidableEq, Repr

structure KeyEvent where
  code : KeyCode
  kind : KeyEventKind := .press
  control : Bool := false
  alt : Bool := false
  super : Bool := false
  deriving DecidableEq, Repr

section Panel

variable {τ : Type} [LinearOrder τ]

-- how a character is written in lower case, between what stands before and after it
variable (lower : Text → Char → Text → Text)

/-- `str::to_lowercase`, after so much of the text. -/
def lowercaseFrom : Text → Text → Text
  | _, [] => []
  | before, c :: after => lower before c after ++ lowercaseFrom (before ++ [c]) after

def toLowercase (text : Text) : Text := lowercaseFrom lower [] text

/-! ### Candidates -/

def providerOrder : Provider → Nat
  | .codex => 0
  | .claude => 1
  | .opencode => 2
  | .muse => 3

/-- The order of the candidates: the latest first. -/
def before (a b : Candidate τ) : Bool :=
  if a.updatedAt ≠ b.updatedAt then b.updatedAt < a.updatedAt
  else if a.provider ≠ b.provider then providerOrder a.provider < providerOrder b.provider
  else String.ofList a.sessionId ≤ String.ofList b.sessionId

/-- The first candidate of each conversation. -/
def retainFirst : List (Provider × Text) → List (Candidate τ) → List (Candidate τ)
  | _, [] => []
  | seen, c :: candidates =>
      if (c.provider, c.sessionId) ∈ seen then retainFirst seen candidates
      else c :: retainFirst ((c.provider, c.sessionId) :: seen) candidates

def normalizeCandidates (candidates : List (Candidate τ)) : List (Candidate τ) :=
  (retainFirst [] (candidates.mergeSort before)).take maxCandidates

/-- What the filter looks at. -/
def haystack (c : Candidate τ) : Text :=
  c.provider.text.toList ++ ' ' :: c.name.getD [] ++ ' ' :: c.sessionId ++ ' ' :: c.cwd.getD [] ++
    ' ' :: c.branch.getD [] ++ ' ' :: c.model.getD []

/-- The places of the candidates that the filter shows. -/
def matching (pick : Pick τ) : List Nat :=
  let query := toLowercase lower pick.query
  (List.range pick.candidates.length).filter fun i => pick.candidates[i]?.any fun c =>
    query.isEmpty || contains (toLowercase lower (haystack c)) query

/-! ### Confirmation -/

def safe (text : Text) : Text := (text.filter fun c => !Terminal.isControl c).take maxFieldChars

/-- What a confirmation of a candidate shows. -/
def confirmationOf (source : Source) (candidate : Candidate τ) : List Text :=
  ["Confirm add · ".toList ++ safe (candidate.name.getD "(unnamed)".toList),
    "Provider ".toList ++ candidate.provider.text.toList,
    "UUID ".toList ++ safe candidate.sessionId,
    "Node ".toList ++ safe source.label,
    "Node ID ".toList ++ safe (source.id.getD "local".toList),
    "Project ".toList ++ safe (candidate.cwd.getD ['—']),
    "Enter add · Esc back (no change yet)".toList]

def confirmationText (pick : Pick τ) : List Text :=
  match pick.candidates[pick.selected]? with
  | none => []
  | some candidate => confirmationOf pick.source candidate

/-! ### What a key asks for -/

def sourceKey (selected : Nat) (sources : List Source) (key : KeyEvent) : Nat × KeyAction τ :=
  if key.kind = .repeat then (selected, .none)
  else
    match key.code with
    | .esc => (selected, .close)
    | .up => (selected - 1, .none)
    | .down => (min (selected + 1) (sources.length - 1), .none)
    | .home => (0, .none)
    | .end => (sources.length - 1, .none)
    | .enter => (selected, (sources[selected]?.map .load).getD .none)
    | _ => (selected, .none)

/-- Select a candidate that is shown, if there is one. -/
def Pick.select (pick : Pick τ) (shown : Option Nat) : Pick τ :=
  { pick with selected := shown.getD pick.selected }

/-- Filter anew, and select the first candidate that is shown. -/
def Pick.filterBy (pick : Pick τ) (query : Text) : Pick τ :=
  { pick with query, selected := (matching lower { pick with query }).head?.getD 0 }

def candidateKey (pick : Pick τ) (key : KeyEvent) : Pick τ × KeyAction τ :=
  if key.kind = .repeat ∧ key.code = .enter then (pick, .none)
  else
    let shown := matching lower pick
    let current := (shown.idxOf? pick.selected).getD 0
    match key.code with
    | .esc => (pick, .close)
    | .up => (pick.select shown[current - 1]?, .none)
    | .down => (pick.select shown[min (current + 1) (shown.length - 1)]?, .none)
    | .home => (pick.select shown.head?, .none)
    | .end => (pick.select shown.getLast?, .none)
    | .enter => (pick, if shown.isEmpty then .none else .confirm)
    | .backspace => (pick.filterBy lower pick.query.dropLast, .none)
    | .char c =>
        if c = 'r' ∧ pick.error.isSome ∧ key.kind ≠ .repeat then (pick, .load pick.source)
        else if key.control || key.alt || key.super then (pick, .none)
        else if charsBytes pick.query + c.utf8Size ≤ maxQueryBytes then
          (pick.filterBy lower (pick.query ++ [c]), .none)
        else (pick.filterBy lower pick.query, .none)
    | .other => (pick, .none)

def confirmKey (pick : Pick τ) (key : KeyEvent) : KeyAction τ :=
  if key.kind = .repeat then .none
  else
    match key.code with
    | .esc => .back
    | .enter => (pick.candidates[pick.selected]?.map (.adopt pick.source)).getD .none
    | _ => .none

/-! ### The panel -/

namespace Panel

def startLoad (panel : Panel τ) (source : Source) : Panel τ :=
  let generation := panel.generation + 1
  { panel with
    cancelled := false
    generation
    state := .loading source
    started := panel.started ++ [.load source generation] }

def startAdopt (panel : Panel τ) (source : Source) (candidate : Candidate τ) : Panel τ :=
  let generation := panel.generation + 1
  { panel with
    cancelled := false
    generation
    state := .mutating source candidate
    started := panel.started ++ [.adopt source candidate generation] }

def new (sources : List Source) : Panel τ :=
  let panel : Panel τ := { sources, state := .sources 0 }
  match sources with
  | [source] => panel.startLoad source
  | _ => panel

/-- What a reply makes of the state. -/
def receive (generation : UInt64) (state : State τ) : Reply τ → State τ
  | .loaded g result =>
      match state with
      | .loading source =>
          if g = generation then
            match result with
            | .ok candidates => .candidates ⟨source, normalizeCandidates candidates, 0, [], none⟩
            | .error error => .candidates ⟨source, normalizeCandidates [], 0, [], some error⟩
          else state
      | _ => state
  | .adopted g result =>
      if g = generation then
        match result with
        | .ok receipt => .finished ("Added to board: ".toList ++ safe receipt)
        | .error error => .finished ("Add did not complete · ".toList ++ safe error ++
            ". Check the board before retrying.".toList)
      else state

def poll (panel : Panel τ) : Panel τ :=
  { panel with state := panel.inbox.foldl (receive panel.generation) panel.state, inbox := [] }

def applyKeyAction (panel : Panel τ) : KeyAction τ → Panel τ × Bool
  | .none => (panel, false)
  | .close => (panel, true)
  | .cancelWorker => ({ panel with cancelled := true }, true)
  | .load source => (panel.startLoad source, false)
  | .confirm =>
      match panel.state with
      | .candidates pick => ({ panel with state := .confirm pick }, false)
      | _ => (panel, false)
  | .back =>
      match panel.state with
      | .confirm pick => ({ panel with state := .candidates pick }, false)
      | _ => (panel, false)
  | .adopt source candidate => (panel.startAdopt source candidate, false)

def outcomeUnknown : Text :=
  "Adoption is still running; its outcome may be unknown if this panel closes.".toList

/-- A key in a state in which something can be chosen. -/
def choose (panel : Panel τ) (key : KeyEvent) : Panel τ × Bool :=
  match panel.state with
  | .sources selected =>
      let (selected, action) := sourceKey selected panel.sources key
      { panel with state := .sources selected }.applyKeyAction action
  | .loading _ => panel.applyKeyAction (if key.code = .esc then .cancelWorker else .none)
  | .candidates pick =>
      let (pick, action) := candidateKey lower pick key
      { panel with state := .candidates pick }.applyKeyAction action
  | .confirm pick => panel.applyKeyAction (confirmKey pick key)
  | _ => (panel, false)

/-- Handle a key; the panel is to be closed if it says so. -/
def key (panel : Panel τ) (key : KeyEvent) : Panel τ × Bool :=
  if key.kind = .release then (panel, false)
  else
    let panel := panel.poll
    if key.code = .char 'c' ∧ key.control then
      match panel.state with
      | .mutating _ _ =>
          ({ panel with closingNotice := some outcomeUnknown, cancelled := true }, true)
      | _ => (panel, true)
    else
      match panel.state with
      | .mutating _ _ =>
          if key.code = .esc then
            ({ panel with closingNotice := some outcomeUnknown, cancelled := true }, true)
          else (panel, false)
      | .finished _ => (panel, key.kind ≠ .repeat && (key.code = .enter || key.code = .esc))
      | _ => panel.choose lower key

end Panel

/-! ### Runs -/

inductive Event (τ : Type) where
  | reply (reply : Reply τ)
  | poll
  | key (key : KeyEvent)

def step (panel : Panel τ) : Event τ → Panel τ
  | .reply reply => { panel with inbox := panel.inbox ++ [reply] }
  | .poll => panel.poll
  | .key key => (panel.key lower key).1

def run (sources : List Source) (events : List (Event τ)) : Panel τ :=
  events.foldl (step lower) (Panel.new sources)

/-- What was adopted. -/
def adoptions (started : List (Work τ)) : List (Source × Candidate τ) :=
  started.filterMap fun work =>
    match work with
    | .load _ _ => none
    | .adopt source candidate _ => some (source, candidate)

/-- The candidate that is selected is shown, unless none is. -/
def Good (pick : Pick τ) : Prop := matching lower pick ≠ [] → pick.selected ∈ matching lower pick

/-- A key opened the confirmation for the candidate that was selected and shown, and nothing was
changed since. -/
def Opened (sources : List Source) (pre : List (Event τ)) (pick : Pick τ) : Prop :=
  ∃ before key rest, pre = before ++ .key key :: rest ∧ key.kind = .press ∧ key.code = .enter ∧
    (run lower sources before).poll.state = .candidates pick ∧
    pick.selected ∈ matching lower pick ∧
    ∀ mid, mid <+: rest → (run lower sources (before ++ .key key :: mid)).state = .confirm pick

end Panel

/-! ### One key -/

section Keys

variable {τ : Type} [LinearOrder τ] {lower : Text → Char → Text → Text} {pick : Pick τ}
  {panel : Panel τ} {key : KeyEvent}

theorem Good.select (h : Good lower pick) {shown : Option Nat}
    (hshown : ∀ i, shown = some i → i ∈ matching lower pick) : Good lower (pick.select shown) := by
  intro hne
  cases shown with
  | none => exact h hne
  | some i => exact hshown i rfl

theorem good_filterBy (pick : Pick τ) (query : Text) : Good lower (pick.filterBy lower query) := by
  intro hne
  have hsame : matching lower (pick.filterBy lower query) =
      matching lower { pick with query } := rfl
  rw [hsame] at hne ⊢
  rw [Pick.filterBy]
  cases hshown : matching lower { pick with query } with
  | nil => exact absurd hshown hne
  | cons i shown => exact List.mem_cons_self

/-- What a key makes of the candidates: it never adopts one. -/
inductive CandidateKey (lower : Text → Char → Text → Text) (pick : Pick τ) (key : KeyEvent) :
    Pick τ × KeyAction τ → Prop where
  | moved {pick' : Pick τ} (good : Good lower pick') : CandidateKey lower pick key (pick', .none)
  | closed : CandidateKey lower pick key (pick, .close)
  | retried : CandidateKey lower pick key (pick, .load pick.source)
  | confirmed (press : key.kind = .press) (enter : key.code = .enter)
      (shown : matching lower pick ≠ []) : CandidateKey lower pick key (pick, .confirm)

theorem candidateKey_spec (h : Good lower pick) (hkey : key.kind ≠ .release) :
    CandidateKey lower pick key (candidateKey lower pick key) := by
  have hmem : ∀ {n : Nat} {i : Nat}, (matching lower pick)[n]? = some i → i ∈ matching lower pick :=
    fun hi => List.mem_of_getElem? hi
  rw [candidateKey]
  by_cases hrepeat : key.kind = .repeat ∧ key.code = .enter
  · rw [if_pos hrepeat]
    exact .moved h
  rw [if_neg hrepeat]
  cases hcode : key.code with
  | enter =>
      have hpress : key.kind = .press := by
        cases hkind : key.kind with
        | press => rfl
        | «repeat» => exact absurd ⟨hkind, hcode⟩ hrepeat
        | release => exact absurd hkind hkey
      by_cases hshown : matching lower pick = []
      · simp only [hshown, List.isEmpty_nil, if_true]
        exact .moved h
      · simp only [List.isEmpty_iff, hshown, if_false]
        exact .confirmed hpress hcode hshown
  | esc => exact .closed
  | up => exact .moved (h.select fun i hi => hmem hi)
  | down => exact .moved (h.select fun i hi => hmem hi)
  | home => exact .moved (h.select fun i hi => List.mem_of_head? hi)
  | «end» => exact .moved (h.select fun i hi => List.mem_of_getLast? hi)
  | backspace => exact .moved (good_filterBy pick _)
  | char c =>
      simp only
      by_cases hretry : c = 'r' ∧ pick.error.isSome ∧ key.kind ≠ .repeat
      · rw [if_pos hretry]
        exact .retried
      rw [if_neg hretry]
      by_cases hmodified : (key.control || key.alt || key.super) = true
      · rw [if_pos hmodified]
        exact .moved h
      rw [if_neg hmodified]
      by_cases hroom : charsBytes pick.query + c.utf8Size ≤ maxQueryBytes
      · rw [if_pos hroom]
        exact .moved (good_filterBy pick _)
      · rw [if_neg hroom]
        exact .moved (good_filterBy pick _)
  | other => exact .moved h

/-- A key at the sources selects one, closes or loads. -/
inductive SourceKey : Nat × KeyAction τ → Prop where
  | moved (selected : Nat) : SourceKey (selected, .none)
  | closed (selected : Nat) : SourceKey (selected, .close)
  | loaded (selected : Nat) (source : Source) : SourceKey (selected, .load source)

omit [LinearOrder τ] in
theorem sourceKey_spec (selected : Nat) (sources : List Source) (key : KeyEvent) :
    SourceKey (τ := τ) (sourceKey selected sources key) := by
  rw [sourceKey]
  by_cases hrepeat : key.kind = .repeat
  · rw [if_pos hrepeat]
    exact .moved _
  rw [if_neg hrepeat]
  cases key.code with
  | enter =>
      cases hsource : sources[selected]? with
      | none =>
          simp only [hsource]
          exact .moved _
      | some source =>
          simp only [hsource]
          exact .loaded _ source
  | esc => exact .closed _
  | _ => exact .moved _

/-- A key at a confirmation goes back or adopts what is confirmed. -/
inductive ConfirmKey (pick : Pick τ) (key : KeyEvent) : KeyAction τ → Prop where
  | none : ConfirmKey pick key .none
  | back : ConfirmKey pick key .back
  | adopt {candidate : Candidate τ} (press : key.kind = .press) (enter : key.code = .enter)
      (selected : pick.candidates[pick.selected]? = some candidate) :
      ConfirmKey pick key (.adopt pick.source candidate)

omit [LinearOrder τ] in
theorem confirmKey_spec (pick : Pick τ) (hkey : key.kind ≠ .release) :
    ConfirmKey pick key (confirmKey pick key) := by
  rw [confirmKey]
  by_cases hrepeat : key.kind = .repeat
  · rw [if_pos hrepeat]
    exact .none
  rw [if_neg hrepeat]
  cases hcode : key.code with
  | enter =>
      have hpress : key.kind = .press := by
        cases hkind : key.kind with
        | press => rfl
        | «repeat» => exact absurd hkind hrepeat
        | release => exact absurd hkind hkey
      cases hselected : pick.candidates[pick.selected]? with
      | none =>
          simp only [hselected]
          exact .none
      | some candidate =>
          simp only [hselected]
          exact .adopt hpress hcode hselected
  | esc => exact .back
  | _ => exact .none

/-- What a key does to a panel whose replies were received. -/
inductive KeyStep (lower : Text → Char → Text → Text) (p : Panel τ) (key : KeyEvent) :
    Panel τ → Prop where
  /-- The state stays. -/
  | stays {q : Panel τ} (state : q.state = p.state) (started : q.started = p.started) :
      KeyStep lower p key q
  | source {q : Panel τ} {selected selected' : Nat} (before : p.state = .sources selected)
      (state : q.state = .sources selected') (started : q.started = p.started) :
      KeyStep lower p key q
  | loads {q : Panel τ} {source : Source} (generation : UInt64)
      (before : ∀ source candidate, p.state ≠ .mutating source candidate)
      (unfinished : ∀ message, p.state ≠ .finished message)
      (state : q.state = .loading source)
      (started : q.started = p.started ++ [.load source generation]) : KeyStep lower p key q
  | moves {q : Panel τ} {pick pick' : Pick τ} (before : p.state = .candidates pick)
      (state : q.state = .candidates pick') (good : Good lower pick')
      (started : q.started = p.started) : KeyStep lower p key q
  | opens {q : Panel τ} {pick : Pick τ} (press : key.kind = .press) (enter : key.code = .enter)
      (before : p.state = .candidates pick) (shown : matching lower pick ≠ [])
      (state : q.state = .confirm pick) (started : q.started = p.started) : KeyStep lower p key q
  | back {q : Panel τ} {pick : Pick τ} (before : p.state = .confirm pick)
      (state : q.state = .candidates pick) (started : q.started = p.started) : KeyStep lower p key q
  | adopts {q : Panel τ} {pick : Pick τ} {candidate : Candidate τ} (generation : UInt64)
      (press : key.kind = .press) (enter : key.code = .enter) (before : p.state = .confirm pick)
      (selected : pick.candidates[pick.selected]? = some candidate)
      (state : q.state = .mutating pick.source candidate)
      (started : q.started = p.started ++ [.adopt pick.source candidate generation]) :
      KeyStep lower p key q

theorem choose_step (hkey : key.kind ≠ .release)
    (hgood : ∀ pick, panel.state = .candidates pick → Good lower pick) :
    KeyStep lower panel key (panel.choose lower key).1 := by
  rw [Panel.choose]
  cases hstate : panel.state with
  | sources selected =>
      have hspec := sourceKey_spec (τ := τ) selected panel.sources key
      simp only
      generalize sourceKey selected panel.sources key = result at hspec
      cases hspec with
      | moved selected' => exact .source hstate rfl rfl
      | closed selected' => exact .source hstate rfl rfl
      | loaded selected' source => exact .loads _ (by simp [hstate]) (by simp [hstate]) rfl rfl
  | loading source =>
      by_cases hesc : key.code = .esc
      · simp only [hesc, if_true]
        exact .stays rfl rfl
      · simp only [hesc, if_false]
        exact .stays rfl rfl
  | candidates pick =>
      have hspec := candidateKey_spec (hgood pick hstate) hkey
      simp only
      generalize candidateKey lower pick key = result at hspec
      cases hspec with
      | moved good => exact .moves hstate rfl good rfl
      | closed => exact .moves hstate rfl (hgood pick hstate) rfl
      | retried => exact .loads _ (by simp [hstate]) (by simp [hstate]) rfl rfl
      | confirmed press enter shown => exact .opens press enter hstate shown rfl rfl
  | confirm pick =>
      have hspec := confirmKey_spec pick hkey
      simp only
      generalize confirmKey pick key = action at hspec
      cases hspec with
      | none => exact .stays rfl rfl
      | back =>
          rw [Panel.applyKeyAction]
          simp only [hstate]
          exact .back hstate rfl rfl
      | adopt press enter selected => exact .adopts _ press enter hstate selected rfl rfl
  | mutating source candidate => exact .stays rfl rfl
  | finished message => exact .stays rfl rfl

/-- A key is looked at when the replies were received, unless it is released. -/
theorem key_step (key : KeyEvent)
    (hgood : ∀ pick, panel.poll.state = .candidates pick → Good lower pick) :
    (key.kind = .release ∧ panel.key lower key = (panel, false)) ∨
      KeyStep lower panel.poll key (panel.key lower key).1 := by
  by_cases hrelease : key.kind = .release
  · exact .inl ⟨hrelease, by rw [Panel.key, if_pos hrelease]⟩
  · refine .inr ?_
    have hchoose := choose_step hrelease hgood
    rw [Panel.key, if_neg hrelease]
    simp only
    by_cases hclose : key.code = .char 'c' ∧ key.control
    · rw [if_pos hclose]
      cases hstate : panel.poll.state with
      | mutating source candidate => exact .stays hstate.symm rfl
      | _ => exact .stays rfl rfl
    · rw [if_neg hclose]
      cases hstate : panel.poll.state with
      | mutating source candidate =>
          by_cases hesc : key.code = .esc
          · simp only [hesc, if_true]
            exact .stays hstate.symm rfl
          · simp only [hesc, if_false]
            exact .stays rfl rfl
      | finished message => exact .stays rfl rfl
      | _ => exact hchoose

end Keys

/-! ### Replies -/

section Replies

variable {τ : Type} [LinearOrder τ] {lower : Text → Char → Text → Text} {pick : Pick τ}
  {panel : Panel τ} {s s' s'' : State τ}

/-- The panel has started to adopt. -/
def State.begun : State τ → Bool
  | .mutating _ _ => true
  | .finished _ => true
  | _ => false

/-- What replies can do to a state. -/
structure Received (lower : Text → Char → Text → Text) (s s' : State τ) : Prop where
  confirm : ∀ pick, s' = .confirm pick → s = .confirm pick
  candidates : ∀ pick, s' = .candidates pick → s = .candidates pick ∨ Good lower pick
  begun : s.begun = true → s'.begun = true

theorem Received.refl (s : State τ) : Received lower s s := ⟨fun _ h => h, fun _ h => .inl h, id⟩

theorem Received.trans (h : Received lower s s') (h' : Received lower s' s'') :
    Received lower s s'' := by
  refine ⟨fun pick e => h.confirm pick (h'.confirm pick e), fun pick e => ?_,
    fun e => h'.begun (h.begun e)⟩
  rcases h'.candidates pick e with e | hgood
  · exact h.candidates pick e
  · exact .inr hgood

/-- Candidates that come are all shown. -/
theorem good_loaded (source : Source) (candidates : List (Candidate τ)) (error : Option Text) :
    Good lower ⟨source, candidates, 0, [], error⟩ := by
  intro hne
  have hall : matching lower ⟨source, candidates, 0, [], error⟩ = List.range candidates.length := by
    rw [matching]
    refine List.filter_eq_self.mpr fun i hi => ?_
    rw [List.mem_range] at hi
    simp [toLowercase, lowercaseFrom, List.getElem?_eq_getElem hi]
  rw [hall] at hne ⊢
  rw [List.mem_range]
  by_contra hzero
  have hempty : candidates.length = 0 := by simpa using hzero
  exact hne (by rw [hempty]; rfl)

theorem receive_received (generation : UInt64) (s : State τ) (reply : Reply τ) :
    Received lower s (Panel.receive generation s reply) := by
  cases reply with
  | loaded g result =>
      cases s with
      | loading source =>
          by_cases hg : g = generation
          · simp only [Panel.receive, if_pos hg]
            cases result with
            | ok candidates =>
                refine ⟨by simp, fun pick hpick => .inr ?_, by simp [State.begun]⟩
                cases hpick
                exact good_loaded source _ none
            | error error =>
                refine ⟨by simp, fun pick hpick => .inr ?_, by simp [State.begun]⟩
                cases hpick
                exact good_loaded source _ (some error)
          · simp only [Panel.receive, if_neg hg]
            exact .refl _
      | _ => exact .refl _
  | adopted g result =>
      by_cases hg : g = generation
      · simp only [Panel.receive, if_pos hg]
        cases result <;> exact ⟨by simp, by simp, fun _ => rfl⟩
      · simp only [Panel.receive, if_neg hg]
        exact .refl _

theorem poll_received (lower : Text → Char → Text → Text) (panel : Panel τ) : Received lower panel.state panel.poll.state := by
  rw [Panel.poll]
  simp only
  generalize panel.state = s
  induction panel.inbox generalizing s with
  | nil => exact .refl s
  | cons reply inbox ih => exact (receive_received _ s reply).trans (ih _)

end Replies

/-! ### Runs of a panel -/

section Runs

variable {τ : Type} [LinearOrder τ] {lower : Text → Char → Text → Text} {sources : List Source}
  {events pre : List (Event τ)} {e : Event τ} {pick : Pick τ}

theorem run_concat (lower : Text → Char → Text → Text) (sources : List Source)
    (events : List (Event τ)) (e : Event τ) :
    run lower sources (events ++ [e]) = step lower (run lower sources events) e := by
  rw [run, List.foldl_append]
  rfl

omit [LinearOrder τ] in
theorem adoptions_append (started : List (Work τ)) (work : Work τ) :
    adoptions (started ++ [work]) = adoptions started ++ adoptions [work] := by
  rw [adoptions, List.filterMap_append]
  rfl

theorem Opened.concat (h : Opened lower sources pre pick)
    (hstate : (run lower sources (pre ++ [e])).state = .confirm pick) :
    Opened lower sources (pre ++ [e]) pick := by
  obtain ⟨before, key, rest, rfl, hpress, henter, hcandidates, hshown, hstays⟩ := h
  refine ⟨before, key, rest ++ [e], by simp, hpress, henter, hcandidates, hshown, ?_⟩
  intro mid hmid
  rcases List.prefix_concat_iff.mp hmid with rfl | hmid
  · simpa using hstate
  · exact hstays mid hmid

/-- What holds of a panel after some events. -/
structure Invariant (lower : Text → Char → Text → Text) (sources : List Source)
    (events : List (Event τ)) : Prop where
  good : ∀ pick, (run lower sources events).state = .candidates pick → Good lower pick
  opened : ∀ pick, (run lower sources events).state = .confirm pick →
    Opened lower sources events pick
  unadopted : (run lower sources events).state.begun = false →
    adoptions (run lower sources events).started = []
  once : (adoptions (run lower sources events).started).length ≤ 1

/-- A panel starts at the sources, or loads the only one. -/
theorem new_state (sources : List Source) :
    (∀ pick, (Panel.new (τ := τ) sources).state ≠ .candidates pick ∧
      (Panel.new (τ := τ) sources).state ≠ .confirm pick) ∧
    adoptions (Panel.new (τ := τ) sources).started = [] := by
  rcases sources with _ | ⟨source, _ | ⟨next, sources⟩⟩ <;>
    simp [Panel.new, Panel.startLoad, adoptions]

theorem invariant_start : Invariant lower sources ([] : List (Event τ)) := by
  obtain ⟨hstate, hadoptions⟩ := new_state (τ := τ) sources
  refine ⟨fun pick e => absurd e (hstate pick).1, fun pick e => absurd e (hstate pick).2,
    fun _ => hadoptions, ?_⟩
  rw [run, List.foldl_nil, hadoptions]
  exact Nat.zero_le 1

/-- Where something may be confirmed nothing was adopted, whatever replies come. -/
theorem Invariant.polled (h : Invariant lower sources pre)
    (hbegun : (run lower sources pre).poll.state.begun = false) :
    adoptions (run lower sources pre).started = [] := by
  refine h.unadopted ?_
  by_contra hbegun'
  rw [(poll_received lower _).begun (by simpa using hbegun')] at hbegun
  cases hbegun

/-- The state stays, but for replies. -/
theorem Invariant.received (h : Invariant lower sources pre)
    (hstate : Received lower (run lower sources pre).state (run lower sources (pre ++ [e])).state)
    (hstarted : adoptions (run lower sources (pre ++ [e])).started =
      adoptions (run lower sources pre).started) : Invariant lower sources (pre ++ [e]) := by
  refine ⟨fun pick hpick => ?_, fun pick hpick => ?_, fun hbegun => ?_, ?_⟩
  · rcases hstate.candidates pick hpick with hbefore | hgood
    · exact h.good pick hbefore
    · exact hgood
  · exact (h.opened pick (hstate.confirm pick hpick)).concat hpick
  · rw [hstarted]
    refine h.unadopted ?_
    by_contra hbegun'
    rw [hstate.begun (by simpa using hbegun')] at hbegun
    cases hbegun
  · rw [hstarted]
    exact h.once

/-- The panel goes on without having adopted anything. -/
theorem Invariant.unstarted
    (good : ∀ pick, (run lower sources events).state = .candidates pick → Good lower pick)
    (opened : ∀ pick, (run lower sources events).state = .confirm pick →
      Opened lower sources events pick)
    (started : adoptions (run lower sources events).started = []) :
    Invariant lower sources events :=
  ⟨good, opened, fun _ => started, by rw [started]; exact Nat.zero_le 1⟩

theorem Invariant.step (h : Invariant lower sources pre) (e : Event τ) :
    Invariant lower sources (pre ++ [e]) := by
  have hrun := run_concat lower sources pre e
  have hpoll := poll_received lower (run lower sources pre)
  cases e with
  | reply reply => exact h.received (by rw [hrun]; exact .refl _) (by rw [hrun]; rfl)
  | poll => exact h.received (by rw [hrun]; exact hpoll) (by rw [hrun]; rfl)
  | key key =>
      have hgood : ∀ pick, (run lower sources pre).poll.state = .candidates pick →
          Good lower pick := by
        intro pick hpick
        rcases hpoll.candidates pick hpick with hbefore | hgood
        · exact h.good pick hbefore
        · exact hgood
      have hkey : run lower sources (pre ++ [.key key]) =
        ((run lower sources pre).key lower key).1 := hrun
      rcases key_step key hgood with ⟨-, hreleased⟩ | hstep
      · refine h.received ?_ ?_
        · rw [hkey, hreleased]
          exact .refl _
        · rw [hkey, hreleased]
      rw [← hkey] at hstep
      cases hstep with
      | stays state started =>
          refine h.received (by rw [state]; exact hpoll) ?_
          rw [started]
          rfl
      | source before state started =>
          refine .unstarted (by simp [state]) (by simp [state]) ?_
          rw [started]
          exact h.polled (by rw [before]; rfl)
      | loads generation before unfinished state started =>
          refine .unstarted (by simp [state]) (by simp [state]) ?_
          have hbegun : (run lower sources pre).poll.state.begun = false := by
            cases hstate : (run lower sources pre).poll.state with
            | mutating source candidate => exact absurd hstate (before source candidate)
            | finished message => exact absurd hstate (unfinished message)
            | _ => rfl
          rw [started, adoptions_append]
          exact (congrArg (· ++ []) (h.polled hbegun)).trans rfl
      | moves before state good started =>
          refine .unstarted ?_ (by simp [state]) ?_
          · intro pick hpick
            cases state.symm.trans hpick
            exact good
          · rw [started]
            exact h.polled (by rw [before]; rfl)
      | @opens pick press enter before shown state started =>
          refine .unstarted (by simp [state]) ?_ ?_
          · intro pick' hpick'
            cases state.symm.trans hpick'
            refine ⟨pre, key, [], rfl, press, enter, before, hgood pick before shown, ?_⟩
            intro mid hmid
            rw [List.prefix_nil.mp hmid]
            exact state
          · rw [started]
            exact h.polled (by rw [before]; rfl)
      | @back pick before state started =>
          have hbefore := hpoll.confirm pick before
          refine .unstarted ?_ (by simp [state]) ?_
          · intro pick' hpick'
            cases state.symm.trans hpick'
            obtain ⟨_, _, _, _, _, _, _, hshown, _⟩ := h.opened pick hbefore
            exact fun _ => hshown
          · rw [started]
            exact h.polled (by rw [before]; rfl)
      | adopts generation press enter before selected state started =>
          have hnone := h.polled (by rw [before]; rfl)
          have hpolled : adoptions (run lower sources pre).poll.started = [] := hnone
          refine ⟨by simp [state], by simp [state], fun hbegun => ?_, ?_⟩
          · rw [state] at hbegun
            cases hbegun
          · rw [started, adoptions_append, hpolled]
            exact Nat.le_refl 1

theorem invariant (lower : Text → Char → Text → Text) (sources : List Source)
    (events : List (Event τ)) : Invariant lower sources events := by
  induction events using List.reverseRecOn with
  | nil => exact invariant_start
  | append_singleton events e ih => exact ih.step e

/-- A key that is not repeated adopts what the confirmation shows, and that is the candidate for
which a key opened it. -/
def Confirmed (lower : Text → Char → Text → Text) (sources : List Source) (pre : List (Event τ))
    (e : Event τ) : Prop :=
  ∃ key pick candidate, e = .key key ∧ key.kind = .press ∧ key.code = .enter ∧
    (run lower sources pre).state = .confirm pick ∧
    pick.candidates[pick.selected]? = some candidate ∧
    confirmationText pick = confirmationOf pick.source candidate ∧
    adoptions (run lower sources (pre ++ [e])).started =
      adoptions (run lower sources pre).started ++ [(pick.source, candidate)] ∧
    Opened lower sources pre pick

theorem confirmed_of_adopted
    (h : adoptions (run lower sources (pre ++ [e])).started ≠
      adoptions (run lower sources pre).started) : Confirmed lower sources pre e := by
  have hinv := invariant lower sources pre
  have hrun := run_concat lower sources pre e
  have hpoll := poll_received lower (run lower sources pre)
  cases e with
  | reply reply =>
      rw [hrun] at h
      exact absurd rfl h
  | poll =>
      rw [hrun] at h
      exact absurd rfl h
  | key key =>
      have hgood : ∀ pick, (run lower sources pre).poll.state = .candidates pick →
          Good lower pick := by
        intro pick hpick
        rcases hpoll.candidates pick hpick with hbefore | hgood
        · exact hinv.good pick hbefore
        · exact hgood
      have hkey : run lower sources (pre ++ [.key key]) =
        ((run lower sources pre).key lower key).1 := hrun
      rcases key_step key hgood with ⟨-, hreleased⟩ | hstep
      · rw [hkey, hreleased] at h
        exact absurd rfl h
      rw [← hkey] at hstep
      cases hstep with
      | @adopts pick candidate generation press enter before selected state started =>
          have hbefore := hpoll.confirm pick before
          refine ⟨key, pick, candidate, rfl, press, enter, hbefore, selected, ?_, ?_,
            hinv.opened pick hbefore⟩
          · rw [confirmationText, selected]
          · rw [started, adoptions_append]
            rfl
      | loads generation _ _ state started =>
          rw [started, adoptions_append] at h
          exact absurd (List.append_nil _) h
      | stays _ started | source _ _ started | moves _ _ _ started | opens _ _ _ _ _ started
      | back _ _ started =>
          rw [started] at h
          exact absurd rfl h

/-- A panel adopts what was confirmed, at most once, and where candidates are shown one of them is
selected; whatever keys and replies come, in any order. -/
theorem adopts_what_was_confirmed (lower : Text → Char → Text → Text) (sources : List Source) :
    (∀ events : List (Event τ), (adoptions (run lower sources events).started).length ≤ 1) ∧
    (∀ (pre : List (Event τ)) (e : Event τ),
      adoptions (run lower sources (pre ++ [e])).started ≠
        adoptions (run lower sources pre).started → Confirmed lower sources pre e) ∧
    (∀ (events : List (Event τ)) (pick : Pick τ),
      (run lower sources events).state = .candidates pick → matching lower pick ≠ [] →
        pick.selected ∈ matching lower pick) :=
  ⟨fun events => (invariant lower sources events).once, fun _ _ h => confirmed_of_adopted h,
    fun events => (invariant lower sources events).good⟩

end Runs

/-- One candidate is loaded, and a key opens the confirmation for it. -/
def sampleEvents : List (Event Nat) :=
  [.reply (.loaded 1 (.ok [{ provider := .codex, sessionId := ['a'], updatedAt := 1 }])),
    .key { code := .enter }]

def sampleSources : List Source := [⟨none, "local".toList⟩]

def sameCase (_ : Text) (c : Char) (_ : Text) : Text := [c]

theorem adopts_what_was_confirmed_sample :
    Confirmed sameCase sampleSources sampleEvents (.key { code := .enter }) :=
  (adopts_what_was_confirmed sameCase sampleSources).2.1 sampleEvents _ (by decide +kernel)

end Pikamux.BoardAdd
