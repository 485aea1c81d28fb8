import MailVerdict.Computation.LruCache
import MailVerdict.Computation.TransitionSystem

/-!
# The expansion cache

`calendar/expansion_cache.py`: `occurrences_for` in front of `expand_instances`, with the
two caches it shares between threads, and the writes of `postimap/actions.py` and of
PostIMAP to the rows it is called for. The bodies, windows, queries and results are
whatever `build_expansion_query` and `expand_from_query` take and return.

A call reads its row, looks in the expansion cache, looks in the query cache or builds the
query, puts it, expands, and puts the result: between any two of these other threads and
other writers come in.
-/

namespace MailVerdict.Model.ExpansionCache

open MailVerdict.Computation

universe u

abbrev ObjectId := ℕ

abbrev Etag := String

/-- The two halves of `expand_instances`, each of which may raise. -/
structure Expander (Body Query Window Result Error : Type) where
  build : Body → Except Error Query
  expandFrom : Query → Window → Except Error Result

variable {Body Query Window Result Error : Type}

/-- SOURCE: `expand_instances` -/
def Expander.expandInstances (E : Expander Body Query Window Result Error) (data : Body)
    (window : Window) : Except Error Result :=
  (E.build data).bind fun query => E.expandFrom query window

structure Call (Body Window : Type) where
  objectId : ObjectId
  etag : Option Etag
  data : Body
  window : Window

/-- A `dav_objects` row: its etag is absent while an insert or a move is pending. -/
structure Row (Body : Type) where
  etag : Option Etag
  data : Body

inductive Phase (Body Query Window Result Error : Type)
  | idle
  | called (c : Call Body Window)
  | missed (c : Call Body Window) (etag : Etag)
  | built (c : Call Body Window) (etag : Etag) (query : Query)
  | querying (c : Call Body Window) (etag : Etag) (query : Query)
  | expanded (c : Call Body Window) (etag : Etag) (result : Result)
  | answered (c : Call Body Window) (answer : Except Error Result)

/-- `server` holds the body each etag was given out for. -/
structure State (I : Type u) (Body Query Window Result Error : Type) where
  rows : ObjectId → Option (Row Body)
  server : ObjectId × Etag → Option Body
  queries : LruCache (ObjectId × Etag) Query
  expansions : LruCache (ObjectId × Etag × Window) Result
  phase : I → Phase Body Query Window Result Error

inductive Label (I : Type u) (Body Window : Type)
  | read (i : I) (id : ObjectId) (window : Window)
  | lookup (i : I)
  | lookupQuery (i : I)
  | putQuery (i : I)
  | expand (i : I)
  | putExpansion (i : I)
  | create (id : ObjectId) (data : Body)
  | replaceData (id : ObjectId) (data : Body)
  | move (id : ObjectId)
  | confirm (id : ObjectId) (etag : Etag) (data : Body)
  | restore (id : ObjectId) (etag : Etag) (data : Body)

section

variable {I : Type u} [DecidableEq I] [DecidableEq Window] [DecidableEq Body]
  (E : Expander Body Query Window Result Error)

def State.to (s : State I Body Query Window Result Error) (i : I)
    (p : Phase Body Query Window Result Error) : State I Body Query Window Result Error :=
  { s with phase := Function.update s.phase i p }

def State.setRow (s : State I Body Query Window Result Error) (id : ObjectId) (row : Row Body) :
    State I Body Query Window Result Error :=
  { s with rows := Function.update s.rows id (some row) }

/-- The lookup in `_expansion_cache`; a row without an etag is expanded uncached. -/
def State.lookupExpansion (s : State I Body Query Window Result Error) (i : I)
    (c : Call Body Window) : State I Body Query Window Result Error :=
  match c.etag with
  | none => s.to i (.answered c (E.expandInstances c.data c.window))
  | some etag =>
    let key := (c.objectId, etag, c.window)
    let s' := { s with expansions := s.expansions.touched key }
    match s.expansions.find? key with
    | some result => s'.to i (.answered c (.ok result))
    | none => s'.to i (.missed c etag)

/-- The lookup in `_query_cache`, or the query built anew. -/
def State.lookupQuery (s : State I Body Query Window Result Error) (i : I)
    (c : Call Body Window) (etag : Etag) : State I Body Query Window Result Error :=
  let s' := { s with queries := s.queries.touched (c.objectId, etag) }
  match s.queries.find? (c.objectId, etag) with
  | some query => s'.to i (.querying c etag query)
  | none =>
    match E.build c.data with
    | .ok query => s'.to i (.built c etag query)
    | .error e => s'.to i (.answered c (.error e))

/-- `expand_from_query` under the query's own lock. -/
def State.expandQuery (s : State I Body Query Window Result Error) (i : I)
    (c : Call Body Window) (etag : Etag) (query : Query) :
    State I Body Query Window Result Error :=
  match E.expandFrom query c.window with
  | .ok result => s.to i (.expanded c etag result)
  | .error e => s.to i (.answered c (.error e))

def State.givesOut (s : State I Body Query Window Result Error) (id : ObjectId) (etag : Etag)
    (data : Body) : Bool :=
  match s.server (id, etag) with
  | none => true
  | some body => decide (body = data)

def State.learn (s : State I Body Query Window Result Error) (id : ObjectId) (etag : Etag)
    (data : Body) : State I Body Query Window Result Error :=
  { s with server := Function.update s.server (id, etag) (some data) }

def step (s : State I Body Query Window Result Error) :
    Label I Body Window → Option (State I Body Query Window Result Error)
  | .read i id window =>
    match s.phase i, s.rows id with
    | .idle, some row => some (s.to i (.called ⟨id, row.etag, row.data, window⟩))
    | .answered _ _, some row => some (s.to i (.called ⟨id, row.etag, row.data, window⟩))
    | _, _ => none
  | .lookup i =>
    match s.phase i with
    | .called c => some (s.lookupExpansion E i c)
    | _ => none
  | .lookupQuery i =>
    match s.phase i with
    | .missed c etag => some (s.lookupQuery E i c etag)
    | _ => none
  | .putQuery i =>
    match s.phase i with
    | .built c etag query =>
      some ({ s with queries := s.queries.put (c.objectId, etag) query }.to i
        (.querying c etag query))
    | _ => none
  | .expand i =>
    match s.phase i with
    | .querying c etag query => some (s.expandQuery E i c etag query)
    | _ => none
  | .putExpansion i =>
    match s.phase i with
    | .expanded c etag result =>
      some ({ s with expansions := s.expansions.put (c.objectId, etag, c.window) result }.to i
        (.answered c (.ok result)))
    | _ => none
  | .create id data =>
    match s.rows id with
    | none => some (s.setRow id ⟨none, data⟩)
    | some _ => none
  -- `replace_object_data`: the etag stays.
  | .replaceData id data => (s.rows id).map fun row => s.setRow id { row with data := data }
  -- `move_object`: a trigger nulls the etag.
  | .move id => (s.rows id).map fun row => s.setRow id { row with etag := none }
  -- The server took a body; the row may have been edited again since it was sent.
  | .confirm id etag data =>
    if s.givesOut id etag data then
      (s.rows id).map fun row => (s.learn id etag data).setRow id { row with etag := some etag }
    else none
  -- A rejected write, or a change made elsewhere: the server's copy over the row.
  | .restore id etag data =>
    if s.givesOut id etag data then some ((s.learn id etag data).setRow id ⟨some etag, data⟩)
    else none

def start (maxQueries maxExpansions : ℕ) : State I Body Query Window Result Error :=
  { rows := fun _ => none, server := fun _ => none, queries := LruCache.empty maxQueries,
    expansions := LruCache.empty maxExpansions, phase := fun _ => .idle }

def system (maxQueries maxExpansions : ℕ) :
    TransitionSystem (State I Body Query Window Result Error) (Label I Body Window) where
  init s := s = start maxQueries maxExpansions
  step := step E

end

end MailVerdict.Model.ExpansionCache
