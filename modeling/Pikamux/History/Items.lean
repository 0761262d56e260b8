import Pikamux.Claude.Projection

/-!
# History — Items

`mobile_history.rs`: what one record of a saved history shows on the phone.

Muse writes a prompt twice, as the model sees it (`started`) and as it was typed
(`user_prompt_display`), both with the id of the run.  The history is read backwards, so the second
comes first: `pageItem` remembers its run, and leaves out the other.
-/

namespace Pikamux.History

open Std Support Json

/-- The runs whose prompt was shown as it was typed. -/
abbrev Runs := ExtTreeSet String compare

/-- What an event shows, and whether the user said it. -/
def shownText (event : Value) : Option (Bool × Option String) :=
  match event["kind"].asStr with
  | some "started" => some (true, event["prompt"].asStr)
  | some "user_prompt_display" => some (true, event["text"].asStr)
  | some "assistant_message_committed" => some (false, event["text"].asStr)
  | some "inbox_item_queued" =>
      if event["source"]["source"].asStr = some "user_steer" then
        some (true, event["payload"]["prompt"].asStr.or event["body"].asStr)
      else none
  | _ => none

/-- The id of a prompt, which both of its records have. -/
def promptId (value event : Value) : Option String :=
  if event["kind"].asStr = some "started" ∨ event["kind"].asStr = some "user_prompt_display" then
    value["payload"]["run_id"].asStr.map ("muse-user-" ++ ·)
  else none

def museItem (value event : Value) : Except String (Option Value) :=
  match shownText event with
  | some (user, some text) => do
      let id ← context "Muse event ID missing" ((promptId value event).or value["id"].asStr)
      return some (← Claude.item id user text)
  | _ => .ok none

/-- The schema that is read. -/
def isFirstSchema : Value → Bool
  | .number (.posInt 1) => true
  | _ => false

def jsonlItem (value : Value) (provider : Provider) (identity : String) :
    Except String (Option Value) :=
  if provider = .claude then Claude.jsonlItem value identity
  else if isFirstSchema value["schema_version"] &&
      value["stream"]["kind"].asStr = some "session" &&
      value["stream"]["id"].asStr = some identity &&
      value["payload_type"].asStr = some "runtime.session" then
    museItem value value["payload"]["event"]
  else .ok none

/-- Show a prompt as it was typed and not as the model sees it. -/
def suppress (value entry : Value) (displayedRuns : Runs) : Except String (Option Value × Runs) :=
  match value["payload"]["event"]["kind"].asStr, value["payload"]["run_id"].asStr with
  | some "user_prompt_display", run => do
      let run ← context "Muse display record has no exact run association" run
      ensure (run.utf8ByteSize ≤ 128 && displayedRuns.size < 40)
        "Muse display association exceeds its bound"
      return (if displayedRuns.contains run then none else some entry, displayedRuns.insert run)
  | some "started", some run =>
      if displayedRuns.contains run then .ok (none, displayedRuns.erase run)
      else .ok (some entry, displayedRuns)
  | _, _ => .ok (some entry, displayedRuns)

/-- `page_item`.  Of the cursor it reads the provider and the id, and changes the displayed runs. -/
def pageItem (value : Value) (provider : Provider) (identity : String) (displayedRuns : Runs) :
    Except String (Option Value × Runs) := do
  match ← jsonlItem value provider identity with
  | none => return (none, displayedRuns)
  | some entry =>
      if provider ≠ .muse then return (some entry, displayedRuns)
      else suppress value entry displayedRuns

end Pikamux.History
