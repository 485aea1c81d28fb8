import MailVerdict.Model.RuleConditions
import MailVerdict.Computation.JsonEquality
import MailVerdict.Computation.TextPatterns
import Mathlib.Algebra.Order.Ring.Int

/-!
# The rule assistant

The model answers with find-and-replace edits over the JSON text of the stage list. `_validate` turns
them into a candidate or refuses: the text is read back, every stage but a `match` must have come
back as it was, a rule that differs from the current one of its id is checked field by field, and
then the change as a whole: denied effects, the document's own validation, folders, the open mail,
and how much of the account's newest mail a rule would catch.

A stage is a `dict` as `definition_to_document` writes it. `Services` is what runs outside: besides
the texts, `json.dumps` and `json.loads` with the text of its `JSONDecodeError`, the equality of
numbers, and the folder references `compute_health` cannot resolve in the accounts.
-/

namespace MailVerdict.Model.RuleAssistant

open MailVerdict.Computation
open Model.PipelineDocument Model.RuleConditions

structure HealthEntry where
  stageId : String
  reference : String
  accountId : String

structure Services (P : Platform) extends Texts P where
  eqNum : P.Number → P.Number → Bool
  ofBool : Bool → P.Number
  dumps : Value P → String
  loads : String → Except String (Value P)
  unresolved : List (StageDefinition P) → List String → List HealthEntry

/-- `_Rejected` goes back to the model; another exception ends the request. -/
inductive Refusal
  | rejected (text : String)
  | raised

/-- What one request has read. `enabled` is the definition's, `accounts` the ids. -/
structure Scene (P : Platform) where
  view : MessageView
  verdict : Option VerdictView
  enabled : Value P
  stages : List (Fields P)
  accounts : List String
  folderNames : List String
  control : List MessageView

inductive ChangeKind
  | added
  | changed
  | moved
  | removed
deriving DecidableEq

/-- SOURCE: rules/assistant.py:171-187 -/
structure RuleChange (P : Platform) where
  kind : ChangeKind
  before : Option (Fields P)
  after : Option (Fields P)

/-- SOURCE: rules/assistant.py:190-197 -/
structure Candidate (P : Platform) where
  stages : List (Fields P)
  changes : List (RuleChange P)
  message : String

variable {P : Platform}

/-! ## Stages -/

def textOf : Option (Value P) → Option String
  | some (.str s) => some s
  | _ => none

def stageIdOf (stage : Fields P) : Option String := textOf (Json.get? "stage_id" stage)

/-- `stage["type"] == "match"` -/
def isMatch (stage : Fields P) : Bool := decide (textOf (Json.get? "type" stage) = some "match")

def RuleChange.stageId (c : RuleChange P) : Option String := (c.after.or c.before).bind stageIdOf

/-- `a == b` -/
def pyEq (R : Services P) (a b : Fields P) : Bool := Json.equal R.eqNum R.ofBool (.obj a) (.obj b)

/-- `repr(v)`, of what `get` gives. -/
def pyRepr : Option (Value P) → String
  | some (.str s) => P.repr s
  | some v => pyStr v
  | none => "None"

def reprTexts (l : List String) : String := "[" ++ ", ".intercalate (l.map P.repr) ++ "]"

def strip (s : String) : String :=
  String.ofList
    ((s.toList.dropWhile TextPatterns.isSpace).reverse.dropWhile TextPatterns.isSpace).reverse

def reject {α : Type} (text : String) : Except Refusal α := .error (.rejected text)

/-! ## Edits -/

def countText (old text : List Char) : ℕ :=
  (TextPatterns.findAll (fun rest => if old.isPrefixOf rest then some ((), old.length) else none)
    0 text).length

/-- `text.replace(old, new, 1)` -/
def replaceOnce (old new : List Char) : List Char → List Char
  | [] => []
  | c :: rest =>
    if old.isPrefixOf (c :: rest) then new ++ (c :: rest).drop old.length
    else c :: replaceOnce old new rest

def applyEdit (number : ℕ) (edit : Value P) (text : String) : Except Refusal String :=
  let fields : Fields P :=
    match edit with
    | .obj fields => fields
    | _ => []
  match textOf (Json.get? "old" fields), textOf (Json.get? "new" fields) with
  | some old, some new =>
    if old = "" then
      reject ("edit " ++ toString number ++ ": 'old' must be non-empty text and 'new' text")
    else
      let count := countText old.toList text.toList
      if count = 0 then
        reject ("edit " ++ toString number ++
          ": its 'old' text does not occur in rules_json as the edits " ++
          "before it left it -- copy it exactly, indentation included")
      else if 1 < count then
        reject ("edit " ++ toString number ++ ": its 'old' text occurs " ++ toString count ++
          " times -- include more of the " ++
          "surrounding text, such as the rule's stage_id line, so it occurs once")
      else .ok (String.ofList (replaceOnce old.toList new.toList text.toList))
  | _, _ => reject ("edit " ++ toString number ++ ": 'old' must be non-empty text and 'new' text")

def applyEditsFrom : ℕ → List (Value P) → String → Except Refusal String
  | _, [], text => .ok text
  | number, edit :: edits, text => do
      let text ← applyEdit number edit text
      applyEditsFrom (number + 1) edits text

/-- SOURCE: rules/assistant.py:374-397 -/
def applyEdits (text : String) (edits : Option (Value P)) : Except Refusal String :=
  match edits with
  | some (.arr edits) => applyEditsFrom 1 edits text
  | _ => reject "'edits' must be a list"

/-- SOURCE: rules/assistant.py:311-316 -/
def modelViewOfStage (stage : Fields P) : Fields P :=
  if isMatch stage then stage
  else
    [("stage_id", (Json.get? "stage_id" stage).getD .null),
      ("type", (Json.get? "type" stage).getD .null),
      ("name", (Json.get? "name" stage).getD .null)]

/-- SOURCE: rules/assistant.py:319-321 -/
def rulesText (R : Services P) (stages : List (Fields P)) : String :=
  R.dumps (.arr (stages.map fun s => .obj (modelViewOfStage s)))

/-! ## The stage list read back -/

/-- SOURCE: rules/assistant.py:110-111 -/
def stageKeys : List String :=
  ["stage_id", "type", "name", "config", "enabled", "halt", "accounts"]

/-- SOURCE: rules/assistant.py:502-508 -/
def requireConditionAndEffects : Option (Value P) → Except String (Fields P)
  | some (.obj config) =>
    if truthy ((Json.get? "when" config).getD .null) then
      match Json.get? "effects" config with
      | some (.arr (_ :: _)) => .ok config
      | _ => .error "'config.effects' must be a non-empty list"
    else .error "'config.when' is empty, which would match every mail"
  | _ => .error "'config' must be an object with 'when' and 'effects'"

/-- The accounts of a rule: `null`, or some of the known ones. -/
def checkedAccounts (known : List String) : Option (Value P) → Option (Value P)
  | some .null => some .null
  | some (.arr items) =>
    if !items.isEmpty && items.all fun a => decide (pyStr a ∈ known) then
      some (.arr (items.map fun a => .str (pyStr a)))
    else none
  | _ => none

/-- SOURCE: rules/assistant.py:440-475 -/
def checkedRule (scene : Scene P) (raw : Fields P) : Except Refusal (Fields P) :=
  match Json.get? "stage_id" raw with
  | some (.str stageId) =>
    let rule := "rule " ++ P.repr stageId
    let unknown := ((raw.map Prod.fst).filter fun k => decide (k ∉ stageKeys)).insertionSort
      (· ≤ ·)
    if stageId = "" then reject "every rule needs a non-empty 'stage_id'"
    else if unknown ≠ [] then
      reject (rule ++ ": unknown keys " ++ reprTexts (P := P) unknown)
    else
      let name := strip ((textOf (Json.get? "name" raw)).getD "")
      if name = "" then reject (rule ++ " needs a non-empty 'name'")
      else
        match Json.get? "enabled" raw, Json.get? "halt" raw with
        | some (.bool enabled), some (.bool halt) =>
          match checkedAccounts scene.accounts (Json.get? "accounts" raw) with
          | none =>
            reject (rule ++ ": 'accounts' must be null (every account) or a non-empty list " ++
              "of account ids from " ++
              reprTexts (P := P) (scene.accounts.eraseDups.insertionSort (· ≤ ·)))
          | some accounts =>
            match requireConditionAndEffects (Json.get? "config" raw) with
            | .error text => reject (rule ++ ": " ++ text)
            | .ok config =>
              .ok [("stage_id", .str stageId), ("type", .str "match"), ("name", .str name),
                ("config", .obj config), ("enabled", .bool enabled), ("halt", .bool halt),
                ("accounts", accounts)]
        | some (.bool _), _ => reject (rule ++ ": 'halt' must be true or false")
        | _, _ => reject (rule ++ ": 'enabled' must be true or false")
  | _ => reject "every rule needs a non-empty 'stage_id'"

/-- One stage of the edited list, and its id where it is one of those that are no `match`.
SOURCE: rules/assistant.py:414-432 -/
def restoreStage (R : Services P) (scene : Scene P) (raw : Fields P) :
    Except Refusal (Fields P × Option String) :=
  let original := (stageIdOf raw).bind fun id =>
    scene.stages.find? fun s => decide (stageIdOf s = some id)
  if !isMatch raw || original.any fun s => !isMatch s then
    match original with
    | some s =>
      if pyEq R raw (modelViewOfStage s) then .ok (s, stageIdOf raw)
      else reject ("only match rules may be changed; stage " ++
        pyRepr (Json.get? "stage_id" raw) ++ " must stay exactly as it was in rules_json")
    | none => reject ("only match rules may be changed; stage " ++
        pyRepr (Json.get? "stage_id" raw) ++ " must stay exactly as it was in rules_json")
  else
    match original with
    | some s =>
      if pyEq R raw s then .ok (s, none)
      else (checkedRule scene raw).map fun s => (s, none)
    | none => (checkedRule scene raw).map fun s => (s, none)

def objectOf : Value P → Option (Fields P)
  | .obj fields => some fields
  | _ => none

/-- The ids of the stages that are no `match`. -/
def otherIds (stages : List (Fields P)) : List String :=
  (stages.filter fun s => !isMatch s).filterMap stageIdOf

/-- SOURCE: rules/assistant.py:400-437 -/
def parseStages (R : Services P) (scene : Scene P) (text : String) :
    Except Refusal (List (Fields P)) :=
  match R.loads text with
  | .error exc => reject ("after the edits, rules_json is not valid JSON: " ++ exc)
  | .ok (.arr items) =>
    match items.mapM objectOf with
    | none => reject "after the edits, rules_json must still be a list of stage objects"
    | some raws => do
        let parsed ← raws.mapM (restoreStage R scene)
        let others := otherIds scene.stages
        if parsed.filterMap Prod.snd ≠ others then
          reject ("the stages " ++ reprTexts (P := P) others ++ " must all stay, in this order")
        else
          let stages := parsed.map Prod.fst
          let ids := stages.filterMap stageIdOf
          match (ids.filter fun i => decide (1 < ids.count i)).insertionSort (· ≤ ·) with
          | i :: _ =>
            reject ("stage_id " ++ P.repr i ++ " is used twice; every rule needs its own")
          | [] => .ok stages
  | .ok _ => reject "after the edits, rules_json must still be a list of stage objects"

/-! ## Changes -/

def idsOf (stages : List (Fields P)) : List String := stages.filterMap stageIdOf

/-- The ids both lists have, in the order of the first; ids are distinct in each. -/
def sharedIds (stages others : List (Fields P)) : List String :=
  (idsOf stages).filter fun i => decide (i ∈ idsOf others)

def findStage (stages : List (Fields P)) (id : Option String) : Option (Fields P) :=
  stages.find? fun s => decide (stageIdOf s = id)

def changeOf (R : Services P) (before after : List (Fields P)) (stage : Fields P) :
    Option (RuleChange P) :=
  match findStage before (stageIdOf stage) with
  | none => some ⟨.added, none, some stage⟩
  | some previous =>
    let id := (stageIdOf stage).getD ""
    if !pyEq R previous stage then some ⟨.changed, some previous, some stage⟩
    else if isMatch stage &&
        decide ((sharedIds before after).idxOf id ≠ (sharedIds after before).idxOf id) then
      some ⟨.moved, some previous, some stage⟩
    else none

/-- SOURCE: rules/assistant.py:478-499 -/
def ruleChanges (R : Services P) (before after : List (Fields P)) : List (RuleChange P) :=
  after.filterMap (changeOf R before after) ++
    (before.filter fun s => (findStage after (stageIdOf s)).isNone).map fun s =>
      ⟨.removed, some s, none⟩

/-! ## Effects -/

/-- SOURCE: rules/assistant.py:102-104 -/
def assistantDeniedEffects : List String :=
  ["record_verdict", "enqueue_order", "notify", "expunge", "webhook"]

/-- SOURCE: rules/assistant.py:325-328 -/
def effectsOf (stage : Option (Fields P)) : List (Value P) :=
  match Json.get? "config" (stage.getD []) with
  | some (.obj config) =>
    match Json.get? "effects" config with
    | some (.arr effects) => effects
    | _ => []
  | _ => []

def deniedKeys (effect : Value P) : List String :=
  match effect with
  | .obj fields => (fields.map Prod.fst).filter fun k => decide (k ∈ assistantDeniedEffects)
  | _ => []

/-- `effect in existing` -/
def carried (R : Services P) (existing : List (Value P)) (effect : Value P) : Bool :=
  existing.any fun e => Json.equal R.eqNum R.ofBool e effect

/-- SOURCE: rules/assistant.py:331-340 -/
def introducedDeniedKinds (R : Services P) (before : Option (Fields P)) (after : Fields P) :
    List String :=
  let existing := effectsOf before
  (((effectsOf (some after)).filter fun e => !carried R existing e).flatMap
    deniedKeys).eraseDups.insertionSort (· ≤ ·)

/-! ## Matching -/

/-- Whether the stage is for the account of the mail. -/
def forAccount (stage : Fields P) (view : MessageView) : Except Raised Bool :=
  match Json.get? "accounts" stage with
  | none => .ok true
  | some accounts =>
    if truthy accounts then
      match iterate accounts with
      | .ok items => .ok (items.any fun a => decide (pyStr a = view.accountId.text))
      | .error _ => .error .type
    else .ok true

/-- `(stage.get("config") or {}).get("when") or {}` -/
def whenOf (stage : Fields P) : Except Raised (Value P) :=
  match Json.get? "config" stage with
  | none => .ok (.obj [])
  | some (.obj config) =>
    let when := (Json.get? "when" config).getD .null
    .ok (if truthy when then when else .obj [])
  | some config => if truthy config then .error .attribute else .ok (.obj [])

/-- A `ValueError` of the condition is no match.
SOURCE: rules/assistant.py:265-283 -/
def stageMatches (R : Services P) (stage : Fields P) (view : MessageView)
    (verdict : Option VerdictView) : Except Raised Bool :=
  if isMatch stage then do
    if ← forAccount stage view then
      let when ← whenOf stage
      let matched :=
        match when with
        | .obj fields => matchesMessage R.toTexts fields view verdict
        | when => evaluateCondition R.toTexts (mailContext R.toTexts view verdict) when
      match matched with
      | .error .value => .ok false
      | matched => matched
    else .ok false
  else .ok false

/-- `any(...)` -/
def anyMatches (R : Services P) (view : MessageView) (verdict : Option VerdictView) :
    List (Fields P) → Except Raised Bool
  | [] => .ok false
  | stage :: rest =>
    match stageMatches R stage view verdict with
    | .ok true => .ok true
    | .ok false => anyMatches R view verdict rest
    | .error e => .error e

/-- SOURCE: rules/assistant.py:286-289 -/
def hits (R : Services P) (stage : Option (Fields P)) (control : List MessageView) :
    Except Raised (List Bool) :=
  match stage with
  | none => .ok (control.map fun _ => false)
  | some stage => control.mapM fun view => stageMatches R stage view none

/-! ## Validation -/

/-- An exception that is no `_Rejected`. -/
def raises {α : Type} : Except Raised α → Except Refusal α
  | .ok a => .ok a
  | .error _ => .error .raised

/-- SOURCE: rules/assistant.py:94 -/
def controlSize : ℕ := 100

/-- The rules the change writes.
SOURCE: rules/assistant.py:520 -/
def written (changes : List (RuleChange P)) : List (RuleChange P) :=
  changes.filter fun c => c.after.isSome && decide (c.kind ≠ .moved)

/-- SOURCE: rules/assistant.py:522-530 -/
def checkDenied (R : Services P) (c : RuleChange P) : Except Refusal Unit :=
  match c.after with
  | none => .ok ()
  | some stage =>
    let denied := introducedDeniedKinds R c.before stage
    if denied = [] then .ok ()
    else reject ("rule " ++ pyRepr (Json.get? "stage_id" stage) ++ ": the effect(s) " ++
      reprTexts (P := P) denied ++ " may not be introduced by " ++
      "this assistant; use only the effect types listed")

/-- SOURCE: rules/assistant.py:554-563 -/
def checkBreadth (R : Services P) (control : List MessageView) (c : RuleChange P) :
    Except Refusal Unit := do
  let caught := (← raises (hits R c.after control)).count true
  let newly : ℤ := caught - ((← raises (hits R c.before control)).count true : ℕ)
  if (controlSize / 2 : ℕ) < newly then
    reject ("rule " ++ pyRepr (c.after.bind (Json.get? "stage_id")) ++ " matches " ++
      toString caught ++ " of the last " ++ toString control.length ++ " mails -- far too broad")
  else .ok ()

def checkEach {α : Type} (check : α → Except Refusal Unit) : List α → Except Refusal Unit
  | [] => .ok ()
  | a :: l => do
      check a
      checkEach check l

/-- SOURCE: rules/assistant.py:532-535 -/
def checkDocument (scene : Scene P) (stages : List (Fields P)) :
    Except Refusal (List (StageDefinition P)) :=
  match validateDocument [("enabled", scene.enabled), ("stages", .arr (stages.map .obj))] with
  | .ok definitions => .ok definitions
  | .error (.problems texts) => reject ("; ".intercalate texts)
  | .error (.exception _) => .error .raised

/-- SOURCE: rules/assistant.py:537-550 -/
def checkFolders (R : Services P) (scene : Scene P) (changes : List (RuleChange P))
    (definitions : List (StageDefinition P)) : Except Refusal Unit :=
  let writtenIds := (written changes).filterMap RuleChange.stageId
  match R.unresolved
      (definitions.filter fun d => (textOf (some d.stageId)).any fun i => decide (i ∈ writtenIds))
      scene.accounts with
  | [] => .ok ()
  | entry :: _ =>
    reject ("rule " ++ P.repr entry.stageId ++ ": folder " ++ P.repr entry.reference ++
      " does not exist in account " ++ entry.accountId ++
      "; folders of the open mail's account: " ++
      reprTexts (P := P) (scene.folderNames.insertionSort (· ≤ ·)))

/-- The stages a change is about, before and after it. -/
def RuleChange.stages (c : RuleChange P) : List (Fields P) := c.before.toList ++ c.after.toList

/-- SOURCE: rules/assistant.py:511-567 -/
def validate (R : Services P) (scene : Scene P) (data : Fields P) :
    Except Refusal (Candidate P) := do
  let text ← applyEdits (rulesText R scene.stages) (Json.get? "edits" data)
  let stages ← parseStages R scene text
  let changes := ruleChanges R scene.stages stages
  if changes.isEmpty then
    reject "the edits change nothing; answer with no edits if nothing should change"
  else
    checkEach (checkDenied R) (written changes)
    let definitions ← checkDocument scene stages
    checkFolders R scene changes definitions
    if ← raises (anyMatches R scene.view scene.verdict (changes.flatMap RuleChange.stages)) then
      checkEach (checkBreadth R scene.control) (written changes)
      let message := (Json.get? "message" data).getD .null
      .ok ⟨stages, changes, strip (if truthy message then pyStr message else "")⟩
    else
      reject ("none of the rules the edits add, change, move or remove match the open mail, " ++
        "before or after the change")

end MailVerdict.Model.RuleAssistant
