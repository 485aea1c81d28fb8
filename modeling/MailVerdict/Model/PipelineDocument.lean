import MailVerdict.Computation.JsonTree

/-!
# Pipeline documents

A pipeline definition is stored as a JSON document, one revision a row, and never
updated. `validate_document` reads a document the API received into stage definitions and
collects every problem it finds; the route stores the document it was given, and every
later reader, run and dry run parses the stored document again (`parse_document`).
`definition_to_document` writes a definition back.

A Python value that came from JSON is a `Json`; what a dataclass holds is not checked
against its annotations, so the fields of a stage definition are values too. `Platform` is
what runs outside the repository: numbers with what a `jsonb` column and the JSON codecs
make of them, `str` and `repr`, the pydantic model of a webhook and the wording of its
errors. A text is a sequence of Unicode scalar values.
-/

namespace MailVerdict.Model.PipelineDocument

open MailVerdict.Computation

/-- Numbers as Python and Postgres have them, and the texts they write. `jsonb n` is the
number a `jsonb` column gives back, `none` for one it refuses. -/
structure Platform where
  Number : Type
  decEq : DecidableEq Number
  isZero : Number → Bool
  jsonb : Number → Option Number
  isZero_of_jsonb : ∀ n m, jsonb n = some m → isZero m = isZero n
  str : Json Number → String
  repr : String → String
  webhookSpec : Json Number → Bool
  exc : String → Json Number → String

instance (P : Platform) : DecidableEq P.Number := P.decEq

variable (P : Platform)

abbrev Value := Json P.Number

/-- The entries of a `dict`, in the order they were written. -/
abbrev Fields := List (String × Json P.Number)

inductive PyError
  | key
  | type
  | value
  | attribute

/-! ## Python -/

variable {P}

/-- `bool(v)`. -/
def truthy : Value P → Bool
  | .null => false
  | .bool b => b
  | .num n => !P.isZero n
  | .str s => decide (s ≠ "")
  | .arr items => !items.isEmpty
  | .obj fields => !fields.isEmpty

def pyStr : Value P → String
  | .str s => s
  | v => P.str v

/-- `for x in v`. -/
def iterate : Value P → Except PyError (List (Value P))
  | .arr items => .ok items
  | .obj fields => .ok (fields.map fun e => .str e.1)
  | .str s => .ok (s.toList.map fun c => .str (String.ofList [c]))
  | _ => .error .type

/-- `d[k] = v` -/
def dictSet (d : Fields P) (k : String) (v : Value P) : Fields P :=
  if d.any fun e => decide (e.1 = k) then d.map fun e => if e.1 = k then (k, v) else e
  else d ++ [(k, v)]

/-- What `dict` takes as a key and its value. -/
def pairOf : Value P → Option (Value P × Value P)
  | .arr [k, v] => some (k, v)
  | .obj [(k, _), (v, _)] => some (.str k, .str v)
  | .str s =>
    match s.toList with
    | [k, v] => some (.str (String.ofList [k]), .str (String.ofList [v]))
    | _ => none
  | _ => none

def hashable : Value P → Bool
  | .arr _ => false
  | .obj _ => false
  | _ => true

/-- `dict(v)`, `none` where it raises. A key that is no text is left out: none is read. -/
def pyDict : Value P → Option (Fields P)
  | .obj fields => some fields
  | .arr items => do
      let pairs ← items.mapM pairOf
      if pairs.all fun p => hashable p.1 then
        some (pairs.foldl (fun d p =>
          match p.1 with
          | .str k => dictSet d k p.2
          | _ => d) [])
      else none
  | .str s => if s = "" then some [] else none
  | _ => none

/-! ### UUIDs -/

structure Uuid where
  digits : List (Fin 16)
  length_eq : digits.length = 32
deriving DecidableEq

def hexChar (d : Fin 16) : Char :=
  if d.val < 10 then Char.ofNat (48 + d.val) else Char.ofNat (87 + d.val)

def hexDigit? (c : Char) : Option (Fin 16) :=
  if '0' ≤ c ∧ c ≤ '9' then some (Fin.ofNat 16 (c.toNat - 48))
  else if 'a' ≤ c ∧ c ≤ 'f' then some (Fin.ofNat 16 (c.toNat - 87))
  else if 'A' ≤ c ∧ c ≤ 'F' then some (Fin.ofNat 16 (c.toNat - 55))
  else none

/-- `l.replace(pat, '')`; `skip` characters of a match are still to be left out. -/
def removeAll (pat : List Char) : ℕ → List Char → List Char
  | _, [] => []
  | skip + 1, _ :: l => removeAll pat skip l
  | 0, c :: l =>
    if pat.isPrefixOf (c :: l) then removeAll pat (pat.length - 1) l
    else c :: removeAll pat 0 l

def stripBraces (l : List Char) : List Char :=
  let brace := fun c : Char => decide (c = '\x7b' ∨ c = '\x7d')
  ((l.dropWhile brace).reverse.dropWhile brace).reverse

/-- `uuid.UUID(s)` of a text: 32 hexadecimal digits; braces, hyphens and a URN prefix do
not count. -/
def uuidOfText (s : String) : Option Uuid :=
  let hex := (stripBraces (removeAll "uuid:".toList 0 (removeAll "urn:".toList 0 s.toList))).filter
    fun c => decide (c ≠ '-')
  match hex.mapM hexDigit? with
  | some digits => if h : digits.length = 32 then some ⟨digits, h⟩ else none
  | none => none

def Uuid.text (u : Uuid) : String :=
  let hex := u.digits.map hexChar
  String.ofList (hex.take 8 ++ '-' :: ((hex.drop 8).take 4 ++ '-' :: ((hex.drop 12).take 4 ++
    '-' :: ((hex.drop 16).take 4 ++ '-' :: hex.drop 20))))

def uuidOf : Value P → Except PyError Uuid
  | .str s =>
    match uuidOfText s with
    | some u => .ok u
    | none => .error .value
  | .null => .error .type
  | _ => .error .attribute

/-- `tuple(uuid.UUID(a) for a in v) if v else None`. -/
def accountIds (v : Option (Value P)) : Except PyError (Option (List Uuid)) :=
  match v with
  | none => .ok none
  | some v =>
    if truthy v then do
      let items ← iterate v
      let ids ← items.mapM uuidOf
      pure (some ids)
    else .ok none

/-! ## Definitions -/

variable (P)

/-- SOURCE: pipeline/contracts.py:247-257 -/
structure StageDefinition where
  stageId : Value P
  type : Value P
  name : Value P
  config : Value P
  enabled : Value P
  halt : Value P
  accounts : Option (List Uuid)

/-- SOURCE: pipeline/revisions.py:50-56 -/
structure PipelineDefinition where
  revision : ℕ
  enabled : Value P
  stages : List (StageDefinition P)

variable {P}

/-! ## The registry -/

inductive StageType
  | match_
  | classify
  | orders

/-- SOURCE: pipeline/registry.py:18-22 -/
def stageTypes (name : String) : Option StageType :=
  if name = "match" then some .match_
  else if name = "classify" then some .classify
  else if name = "orders" then some .orders
  else none

/-- Whether `tuple(value.get(key, ()))` returns. -/
def tupleOk (fields : Fields P) (key : String) : Bool :=
  match Json.get? key fields with
  | none => true
  | some v => (iterate v).isOk

/-- Whether `parse_effect` returns.
SOURCE: pipeline/effect_codec.py:47-98 -/
def parseEffect : Fields P → Bool
  | [(kind, raw)] =>
    let value : Value P := if truthy raw then raw else .obj []
    if kind = "trash" ∨ kind = "expunge" then true
    else if kind = "webhook" then P.webhookSpec value
    else
      match value with
      | .obj fields =>
        if kind = "move" then
          match Json.get? "folder_id" fields with
          | none => true
          | some id => !truthy id || (uuidOf id).isOk
        else if kind = "set_flags" then true
        else if kind = "keywords" ∨ kind = "tag" then
          tupleOk fields "add" && tupleOk fields "remove"
        else if kind = "record_verdict" then (Json.get? "is_spam" fields).isSome
        else decide (kind = "notify" ∨ kind = "enqueue_order")
      | _ => false
  | _ => false

/-- Whether pydantic and the constructor take a config.
SOURCE: pipeline/stages/match.py:25-49, pipeline/stages/classify.py:66-70,
pipeline/stages/orders.py:28-30 -/
def StageType.takes (config : Fields P) : StageType → Bool
  | .classify => true
  | .orders => true
  | .match_ =>
    (match Json.get? "when" config with
      | none => true
      | some (.obj _) => true
      | some _ => false) &&
    (match Json.get? "effects" config with
      | none => true
      | some (.arr effects) => effects.all fun e =>
        match e with
        | .obj fields => parseEffect fields
        | _ => false
      | some _ => false)

/-- SOURCE: pipeline/registry.py:25-60 -/
def buildStage (definition : StageDefinition P) : Except String StageType :=
  let id := P.repr (pyStr definition.stageId)
  let type := pyStr definition.type
  match stageTypes type with
  | none => .error ("stage " ++ id ++ ": unknown stage type " ++ P.repr type)
  | some stageCls =>
    match pyDict definition.config with
    | some config =>
      if stageCls.takes config then .ok stageCls
      else .error ("stage " ++ id ++ ": config does not match " ++ P.repr type ++ " schema: " ++
        P.exc type definition.config)
    | none => .error ("stage " ++ id ++ ": config does not match " ++ P.repr type ++ " schema: " ++
        P.exc type definition.config)

/-! ## Validation -/

/-- SOURCE: rules/conditions.py:65-82 -/
def knownConditionTypes : List String :=
  ["subject_contains", "body_contains", "subject_matches", "body_matches", "sender_match",
    "sender_domain", "header_match", "header_exists", "size_gt", "size_lt", "has_attachment",
    "folder_is", "tag_is", "verdict_is"]

/-- `sorted(condition)!r`. -/
def reprKeys (fields : Fields P) : String :=
  "[" ++ ", ".intercalate (((fields.map Prod.fst).insertionSort (· ≤ ·)).map P.repr) ++ "]"

mutual

/-- A composite key is alone in its object.
SOURCE: pipeline/document_validation.py:100-146 -/
def validateConditionTree (stageId : String) : Value P → List String
  | .obj [] => ["stage " ++ P.repr stageId ++ ": condition must be a non-empty object"]
  | .obj [(key, value)] =>
    if key = "all" ∨ key = "any" then
      match value with
      | .arr (item :: items) => validateConditions stageId (item :: items)
      | _ => ["stage " ++ P.repr stageId ++ ": " ++ P.repr key ++ " must be a non-empty list"]
    else if key = "not" then validateConditionTree stageId value
    else if key ∈ knownConditionTypes then []
    else ["stage " ++ P.repr stageId ++ ": unknown condition type " ++ P.repr key]
  | .obj (e :: e' :: rest) =>
    let keys := (e :: e' :: rest).map Prod.fst
    let several := "stage " ++ P.repr stageId ++ ": a condition may only have one key, got " ++
      reprKeys (e :: e' :: rest) ++ " -- use 'all' to combine conditions"
    if keys.any fun k => decide (k = "all" ∨ k = "any" ∨ k = "not") then [several]
    else
      match keys.find? fun k => decide (k ∉ knownConditionTypes) with
      | some k => ["stage " ++ P.repr stageId ++ ": unknown condition type " ++ P.repr k]
      | none => [several]
  | _ => ["stage " ++ P.repr stageId ++ ": condition must be a non-empty object"]

def validateConditions (stageId : String) : List (Value P) → List String
  | [] => []
  | item :: items => validateConditionTree stageId item ++ validateConditions stageId items

end

variable (P)

/-- What the loop of `validate_document` has gathered. -/
structure Progress where
  seenIds : List String
  problems : List String
  definitions : List (StageDefinition P)

variable {P}

def Progress.problem (s : Progress P) (text : String) : Progress P :=
  { s with problems := s.problems ++ [text] }

/-- The definition validation makes of a stage. -/
def checkedDefinition (raw : Fields P) (stageId type : String) (accounts : Option (List Uuid)) :
    StageDefinition P :=
  { stageId := .str stageId
    type := .str type
    name := .str
      (match Json.get? "name" raw with
        | some v => if truthy v then pyStr v else stageId
        | none => stageId)
    config :=
      match Json.get? "config" raw with
      | some v => if truthy v then v else .obj []
      | none => .obj []
    enabled := .bool (truthy ((Json.get? "enabled" raw).getD (.bool true)))
    halt := .bool (truthy ((Json.get? "halt" raw).getD (.bool false)))
    accounts := accounts }

/-- The problems of a config's `when` tree; an empty one has none. -/
def whenProblems (stageId : String) (config : Value P) : List String :=
  match config with
  | .obj fields =>
    match Json.get? "when" fields with
    | some when => if truthy when then validateConditionTree stageId when else []
    | none => []
  | _ => []

/-- One turn of the loop. Of the exceptions a bad account id raises, an `AttributeError`
is not caught.
SOURCE: pipeline/document_validation.py:55-92 -/
def checkStage (i : ℕ) (raw : Value P) (s : Progress P) : Except PyError (Progress P) :=
  match raw with
  | .obj fields =>
    match Json.get? "stage_id" fields with
    | some (.str stageId) =>
      if stageId = "" then
        .ok (s.problem
          ("stage " ++ toString i ++ ": 'stage_id' is required and must be a string"))
      else if stageId ∈ s.seenIds then
        .ok (s.problem ("stage " ++ P.repr stageId ++ ": duplicate stage_id"))
      else
        let s : Progress P := { s with seenIds := stageId :: s.seenIds }
        match Json.get? "type" fields with
        | some (.str type) =>
          if type = "" then
            .ok (s.problem
              ("stage " ++ P.repr stageId ++ ": 'type' is required and must be a string"))
          else
            match accountIds (Json.get? "accounts" fields) with
            | .error .attribute => .error .attribute
            | .error _ =>
              .ok (s.problem
                ("stage " ++ P.repr stageId ++ ": 'accounts' must be a list of UUIDs"))
            | .ok accounts =>
              let definition := checkedDefinition fields stageId type accounts
              match buildStage definition with
              | .error text => .ok (s.problem text)
              | .ok _ =>
                .ok { s with
                  problems := s.problems ++ whenProblems stageId definition.config
                  definitions := s.definitions ++ [definition] }
        | _ =>
          .ok (s.problem
            ("stage " ++ P.repr stageId ++ ": 'type' is required and must be a string"))
    | _ =>
      .ok (s.problem
        ("stage " ++ toString i ++ ": 'stage_id' is required and must be a string"))
  | _ => .ok (s.problem ("stage " ++ toString i ++ ": must be an object"))

def checkStages : ℕ → List (Value P) → Progress P → Except PyError (Progress P)
  | _, [], s => .ok s
  | i, raw :: rest, s =>
    match checkStage i raw s with
    | .error e => .error e
    | .ok s => checkStages (i + 1) rest s

inductive Rejection
  | problems (texts : List String)
  | exception (e : PyError)

/-- SOURCE: pipeline/document_validation.py:35-96 -/
def validateDocument (document : Fields P) : Except Rejection (List (StageDefinition P)) :=
  match Json.get? "stages" document with
  | some (.arr stages) =>
    match checkStages 0 stages ⟨[], [], []⟩ with
    | .error e => .error (.exception e)
    | .ok s => if s.problems = [] then .ok s.definitions else .error (.problems s.problems)
  | _ => .error (.problems ["'stages' must be a list"])

/-! ## Parsing and writing -/

/-- SOURCE: pipeline/revisions.py:172-183 -/
def parseStage (s : Value P) : Except PyError (StageDefinition P) :=
  match s with
  | .obj fields =>
    match Json.get? "stage_id" fields, Json.get? "type" fields with
    | some stageId, some type => do
        let accounts ← accountIds (Json.get? "accounts" fields)
        pure
          { stageId := stageId
            type := type
            name := (Json.get? "name" fields).getD stageId
            config := (Json.get? "config" fields).getD (.obj [])
            enabled := (Json.get? "enabled" fields).getD (.bool true)
            halt := (Json.get? "halt" fields).getD (.bool false)
            accounts := accounts }
    | _, _ => .error .key
  | _ => .error .type

/-- SOURCE: pipeline/revisions.py:172-186 -/
def parseDocument (revision : ℕ) (document : Value P) : Except PyError (PipelineDefinition P) :=
  match document with
  | .obj fields => do
      let items ← iterate ((Json.get? "stages" fields).getD (.arr []))
      let stages ← items.mapM parseStage
      pure
        { revision := revision
          enabled := (Json.get? "enabled" fields).getD (.bool true)
          stages := stages }
  | _ => .error .attribute

def stageToDocument (s : StageDefinition P) : Except PyError (Value P) :=
  match pyDict s.config with
  | none => .error .type
  | some config =>
    .ok (.obj
      [("stage_id", s.stageId), ("type", s.type), ("name", s.name), ("config", .obj config),
        ("enabled", s.enabled), ("halt", s.halt),
        ("accounts",
          match s.accounts with
          | some (a :: rest) => .arr ((a :: rest).map fun u => .str u.text)
          | _ => .null)])

/-- SOURCE: pipeline/revisions.py:189-202 -/
def definitionToDocument (definition : PipelineDefinition P) : Except PyError (Value P) := do
  let stages ← definition.stages.mapM stageToDocument
  pure (.obj [("enabled", definition.enabled), ("stages", .arr stages)])

/-! ## The revisions -/

/-- Postgres takes every Unicode text but one with U+0000. -/
def storableText (s : String) : Bool := !s.toList.any fun c => decide (c = '\x00')

/-- The number as a `jsonb` column gives it back. -/
def storedNumber (n : P.Number) : P.Number := (P.jsonb n).getD n

/-- A `jsonb` column takes the value. -/
def storable (v : Value P) : Bool := v.all (fun n => (P.jsonb n).isSome) storableText

/-- The value read back from a `jsonb` column: its objects' keys in `jsonb` order. -/
def stored (v : Value P) : Value P := v.rebuild storedNumber

/-- `pipeline_revisions`, the newest first. -/
abbrev Revisions (P : Platform) := List (ℕ × Value P)

inductive AppendError
  | stale (expected actual : ℕ)
  | database

def Revisions.latest (r : Revisions P) : ℕ := (r.head?.map Prod.fst).getD 0

/-- SOURCE: pipeline/revisions.py:104-152 -/
def Revisions.append (r : Revisions P) (document : Value P) (expectedBaseRevision : Option ℕ) :
    Except AppendError (Revisions P) :=
  match expectedBaseRevision with
  | some expected =>
    if r.latest ≠ expected then .error (.stale expected r.latest)
    else if storable document then .ok ((r.latest + 1, stored document) :: r)
    else .error .database
  | none =>
    if storable document then .ok ((r.latest + 1, stored document) :: r) else .error .database

/-- SOURCE: pipeline/revisions.py:77-89 -/
def Revisions.current (r : Revisions P) : Except PyError (Option (PipelineDefinition P)) :=
  match r.head? with
  | none => .ok none
  | some row => do
      let definition ← parseDocument row.1 row.2
      pure (some definition)

end MailVerdict.Model.PipelineDocument
