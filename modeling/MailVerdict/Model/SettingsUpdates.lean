import Mathlib.Data.Finmap
import Mathlib.Data.Rat.Defs
import MailVerdict.Computation.TransitionSystem

/-!
# Updates of the settings

One service keeps a cache of the `settings` table. A call of `update` or `bulk_import` checks
the types of its data, then stores one category after the other, each in a transaction that
reads the category's row and later writes the whole of it, and last reads the table back into
the cache. Calls overlap at every await. The callers name setting categories only.

A dictionary is a finite map; `{**a, **b}` is `b ∪ a`. A list or an object of a value is
known up to Python's equality. SQLAlchemy writes a column that was assigned when its value
does not compare equal to the one it loaded.
-/

namespace MailVerdict.Model.SettingsUpdates

open MailVerdict.Computation

inductive PyType
  | noneType
  | bool
  | int
  | float
  | str
  | list
  | dict
deriving DecidableEq

def PyType.name : PyType → String
  | .noneType => "NoneType"
  | .bool => "bool"
  | .int => "int"
  | .float => "float"
  | .str => "str"
  | .list => "list"
  | .dict => "dict"

/-- A value of a setting; `True` is the number 1 of type bool. -/
inductive Value
  | null
  | number (type : PyType) (value : ℚ)
  | text (s : String)
  | other (type : PyType) (contents : ℕ)
deriving DecidableEq

def Value.type : Value → PyType
  | .null => .noneType
  | .number type _ => type
  | .text _ => .str
  | .other type _ => type

/-- What Python compares of a value: numbers without their types. -/
def Value.compared : Value → Value
  | .number _ value => .number .float value
  | v => v

def Value.isInstance (v : Value) (expected : PyType) : Bool :=
  v.type = expected || (expected = .int && v.type = .bool)

abbrev Data := Finmap fun _ : String => Value

/-- The rows of `settings`, or the cache. -/
abbrev Table := Finmap fun _ : String => Data

/-- Python's `==` of two dictionaries. -/
def equal (d e : Data) : Bool :=
  decide (d.keys = e.keys ∧
    ∀ k ∈ d.keys, (d.lookup k).map Value.compared = (e.lookup k).map Value.compared)

def ofItems (items : List (String × Value)) : Data :=
  (items.map fun e => (⟨e.1, e.2⟩ : Σ _ : String, Value)).toFinmap

/-- SOURCE: settings/defaults.py:34-45 -/
def settingCategories : List String :=
  ["ai", "assistant", "retry", "pipeline", "semantic", "calendar", "outbox", "mail", "orders"]

/-! ## The service -/

/-- One item of `_validate_types`. SOURCE: settings/service.py:106-128 -/
def validateItem (category : String) (defaults : Data) (e : String × Value) :
    Except String (String × Value) :=
  match defaults.lookup e.1 with
  | none | some .null => .ok e
  | some default =>
    match default.type, e.2 with
    | .float, .number .int value => .ok (e.1, .number .float value)
    | expected, value =>
      if value.isInstance expected then .ok e
      else .error ("Setting '" ++ category ++ "." ++ e.1 ++ "' expects " ++ expected.name ++
        ", got " ++ value.type.name)

/-- SOURCE: settings/service.py:82-127 -/
def validateTypes (category : String) (defaults : Data) (items : List (String × Value)) :
    Except String Data :=
  (items.mapM (validateItem category defaults)).map ofItems

/-- The cache as `load` makes it. SOURCE: settings/service.py:37-45 -/
def loaded (defaults : String → Data) (rows : Table) : Table :=
  settingCategories.foldl
    (fun cache cat => cache.insert cat ((rows.lookup cat).getD ∅ ∪ defaults cat)) ∅

inductive Kind
  | update (category : String)
  | bulkImport

inductive Phase
  /-- Before the next category of `todo`, or before the read that refreshes the cache. -/
  | ready
  | holding (existing : Option Data)
  | refreshing (rows : Table)
  | returned
  | raised (error : String)
deriving DecidableEq

structure Call where
  kind : Kind
  /-- What the call stores, once its types are checked. -/
  entries : List (String × Data)
  todo : List (String × Data)
  phase : Phase

structure State where
  rows : Table
  cache : Table
  calls : List Call
  /-- The rows before any of the calls. -/
  before : Table
  /-- What was stored, oldest first: by which call, in which category. -/
  log : List (ℕ × String × Data)

inductive Label
  | update (category : String) (data : List (String × Value))
  | bulkImport (settings : List (String × List (String × Value)))
  | read (call : ℕ)
  | write (call : ℕ)
  | refresh (call : ℕ)
  | assign (call : ℕ)
  | fail (call : ℕ) (error : String)

section Calls

variable (defaults : String → Data)

/-- SOURCE: settings/service.py:129-142 -/
def updateCall (category : String) (data : List (String × Value)) : Call :=
  match validateTypes category (defaults category) data with
  | .error error => ⟨.update category, [], [], .raised error⟩
  | .ok data => ⟨.update category, [(category, data)], [(category, data)], .ready⟩

/-- SOURCE: settings/service.py:167-175 -/
def importCall (settings : List (String × List (String × Value))) : Call :=
  let importable := settings.filter fun e => e.1 ∈ settingCategories
  match importable.mapM fun e => (validateTypes e.1 (defaults e.1) e.2).map (e.1, ·) with
  | .error error => ⟨.bulkImport, [], [], .raised error⟩
  | .ok importable => ⟨.bulkImport, importable, importable, .ready⟩

end Calls

namespace State

variable (s : State)

def setCall (n : ℕ) (k : Call) : State := { s with calls := s.calls.set n k }

/-- The end of `upsert_category`: the whole row is written, unless it compares equal to what
was loaded; a row that another transaction has inserted meanwhile is a collision.
SOURCE: settings/repository.py:72-80 -/
def upsert (category : String) (existing : Option Data) (data : Data) : Option Table :=
  match existing with
  | some existing =>
    if equal (data ∪ existing) existing then some s.rows
    else some (s.rows.insert category (data ∪ existing))
  | none =>
    if category ∈ s.rows then none else some (s.rows.insert category data)

def write (n : ℕ) (k : Call) (category : String) (data : Data) (rest : List (String × Data))
    (existing : Option Data) : State :=
  match s.upsert category existing data with
  | none => s.setCall n { k with phase := .raised "IntegrityError" }
  | some rows =>
    { s.setCall n { k with todo := rest, phase := .ready } with
      rows := rows
      log := s.log ++ [(n, category, data)] }

/-- SOURCE: settings/service.py:143-146, 178-179 -/
def assign (defaults : String → Data) (n : ℕ) (k : Call) (rows : Table) : State :=
  { s.setCall n { k with phase := .returned } with
    cache := match k.kind with
      | .update category =>
        s.cache.insert category ((rows.lookup category).getD ∅ ∪ defaults category)
      | .bulkImport => loaded defaults rows }

end State

/-- SOURCE: settings/service.py:129-179; settings/repository.py:61-81 -/
def step (defaults : String → Data) (s : State) : Label → Option State
  | .update category data =>
    if category ∈ settingCategories then
      some { s with calls := s.calls ++ [updateCall defaults category data] }
    else none
  | .bulkImport settings =>
    if (settings.map Prod.fst).Nodup then
      some { s with calls := s.calls ++ [importCall defaults settings] }
    else none
  | .read n => s.calls[n]?.bind fun k =>
    match k.phase, k.todo with
    | .ready, (category, _) :: _ =>
      some (s.setCall n { k with phase := .holding (s.rows.lookup category) })
    | _, _ => none
  | .write n => s.calls[n]?.bind fun k =>
    match k.phase, k.todo with
    | .holding existing, (category, data) :: rest =>
      some (s.write n k category data rest existing)
    | _, _ => none
  | .refresh n => s.calls[n]?.bind fun k =>
    match k.phase, k.todo with
    | .ready, [] => some (s.setCall n { k with phase := .refreshing s.rows })
    | _, _ => none
  | .assign n => s.calls[n]?.bind fun k =>
    match k.phase with
    | .refreshing rows => some (s.assign defaults n k rows)
    | _ => none
  | .fail n error => s.calls[n]?.bind fun k =>
    match k.phase with
    | .ready | .holding _ => some (s.setCall n { k with phase := .raised error })
    | _ => none

/-- Any rows, loaded into the cache, and no call yet. -/
def system (defaults : String → Data) : TransitionSystem State Label where
  init s := s.calls = [] ∧ s.log = [] ∧ s.before = s.rows ∧ s.cache = loaded defaults s.rows
  step := step defaults

end MailVerdict.Model.SettingsUpdates
