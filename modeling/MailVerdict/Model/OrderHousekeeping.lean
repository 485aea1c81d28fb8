import Mathlib.Data.Finset.Max
import Mathlib.Data.Finset.Option
import MailVerdict.Computation.ReadCommitted
import MailVerdict.Computation.RowVersions

/-!
# The orders register and who writes it

The worker's mail, file and write jobs are transactions under the orders advisory lock; the
API's merge, detach, file deletion, order deletion, upload and the deletion of an account
are transactions that do not take it. Each is the list of its statements, in the order the
code issues them, run at READ COMMITTED (`Computation.ReadCommitted`).

A `Stmt` that selects rows to change selects them in its snapshot and changes those that
still match in their newest version; the rows a foreign key cascades to, a foreign key's
target and a unique index are looked up in the newest version alone. What a job waits for
outside the database (the model, the reading of an attachment) only lets time pass between
two statements, and what the model answers is part of the job: a job may name any order,
which then has to be there when the row that refers to it is inserted.

Facts, documents and the texts of an order are not written here. A mail's row is known by
its account and message key, which are unique. Beside the tables the database records which
mails a job placed, which files were added to an order, and which of them a call released.
-/

namespace MailVerdict.Model.OrderHousekeeping

open MailVerdict.Computation

abbrev Uuid := ℕ

/-- The account and the message key of a mail. -/
abbrev Gate := ℕ × String

/-- The counters of an order. A bound that is NULL is `⊤` where it is a minimum and `⊥`
where it is a maximum: `least` and `greatest` skip NULL. -/
structure Aggregates where
  mailCount : ℕ
  fileCount : ℕ
  firstMailAt : WithTop ℤ
  lastMailAt : WithBot ℤ
  firstActivityAt : WithTop ℤ
  lastActivityAt : WithBot ℤ
deriving DecidableEq

structure Order where
  id : Uuid
  aggregates : Aggregates
deriving DecidableEq

structure OrderMail where
  gate : Gate
  orderId : Uuid
  receivedAt : ℤ
deriving DecidableEq

/-- A file added by hand; `attached` is the status its job gives it. -/
structure OrderFile where
  id : Uuid
  orderId : Option Uuid
  createdAt : ℤ
  attached : Bool
deriving DecidableEq

structure Db where
  orders : RowTable Order.id
  mails : RowTable OrderMail.gate
  files : RowTable OrderFile.id
  /-- The mails whose job ended created or attached. -/
  ended : Finset Gate
  /-- The mails a call detached without a target, or removed with their account or with
  their order. -/
  released : Finset Gate
  /-- The files that were added to an order, by their upload or by their job. -/
  placed : Finset Uuid
  /-- The files a call deleted, alone or with their order. -/
  removed : Finset Uuid

/-- What one statement writes, and the rows of `orders` it locks without changing them. -/
structure Delta where
  orders : Writes Order.id := .none
  mails : Writes OrderMail.gate := .none
  files : Writes OrderFile.id := .none
  ended : Finset Gate := ∅
  released : Finset Gate := ∅
  placed : Finset Uuid := ∅
  removed : Finset Uuid := ∅
  /-- Rows updated in columns that are not kept here. -/
  touched : Finset Uuid := ∅
  /-- Rows a foreign key of a written row refers to. -/
  shared : Finset Uuid := ∅

inductive Target
  | none
  | new (orderId : Uuid)
  | existing (orderId : Uuid)

inductive Stmt
  | checkMail (g : Gate) (receivedAt : ℤ) (target : Target)
  | createOrder (o : Uuid)
  | attachMail (o : Uuid) (g : Gate) (receivedAt : ℤ)
  | touch (o : Uuid)
  | recompute (o : Uuid)
  | endMail (g : Gate)
  | readFile (f : Uuid) (target : Target)
  | findOrder (o f : Uuid)
  | placeFile (o f : Uuid)
  | requireOrder (o : Uuid)
  | moveMails (source target : Uuid)
  | moveFiles (source target : Uuid)
  | deleteOrder (o : Uuid)
  | readMail (o : Uuid) (g : Gate) (moveTo : Option Uuid)
  | deleteMail (o : Uuid) (g : Gate) (moveTo : Option Uuid)
  | settle (o : Uuid)
  | deleteIfEmpty (o : Uuid)
  | deleteFile (o f : Uuid)
  | removeOrder (o : Uuid)
  | findOrders (accountId : ℕ) (orders : List Uuid)
  | deleteMails (accountId : ℕ)
  | createFile (f : Uuid) (o : Option Uuid) (createdAt : ℤ)

/-- A part of the database: an order with its counters and the rows that are in it, whether
a mail is in any order, an account's mails, a file's row. -/
inductive Use
  | order (o : Uuid)
  | gate (g : Gate)
  | account (a : ℕ)
  | file (f : Uuid)
deriving DecidableEq

/-- The transactions: the worker's jobs, and the API's calls. -/
inductive Kind
  | mailJob (g : Gate) (receivedAt : ℤ) (target : Target)
  | fileJob (f : Uuid) (target : Target)
  | writeJob (o : Uuid)
  | mergeOrder (source target : Uuid)
  | detachMail (o : Uuid) (g : Gate) (moveTo : Option Uuid)
  | deleteFile (o f : Uuid)
  | deleteOrder (o : Uuid)
  | deleteAccount (accountId : ℕ) (orders : List Uuid)
  | upload (f : Uuid) (o : Option Uuid) (createdAt : ℤ)

namespace Db

variable (d : Db)

def write (c : Delta) : Db where
  orders := d.orders.view c.orders
  mails := d.mails.view c.mails
  files := d.files.view c.files
  ended := d.ended ∪ c.ended
  released := d.released ∪ c.released
  placed := d.placed ∪ c.placed
  removed := d.removed ∪ c.removed

def hasOrder (o : Uuid) : Bool := (d.orders.find? o).isSome

def hasMail (g : Gate) : Bool := (d.mails.find? g).isSome

def mailsOf (o : Uuid) : Finset OrderMail := d.mails.rows.filter fun m => m.orderId = o

def filesOf (o : Uuid) : Finset OrderFile := d.files.rows.filter fun f => f.orderId = some o

def mailsBy (a : ℕ) : Finset OrderMail := d.mails.rows.filter fun m => m.gate.1 = a

/-- What `recompute_aggregates` computes of an order's rows.
SOURCE: orders/repository.py:106-150 -/
def aggregates (o : Uuid) : Aggregates :=
  let received := (d.mailsOf o).image OrderMail.receivedAt
  let created := (d.filesOf o).image OrderFile.createdAt
  { mailCount := (d.mailsOf o).card
    fileCount := (d.filesOf o).card
    firstMailAt := received.min
    lastMailAt := received.max
    firstActivityAt := min received.min created.min
    lastActivityAt := max received.max created.max }

def gatesOf (o : Uuid) : Finset Gate := (d.mailsOf o).image OrderMail.gate

def fileIdsOf (o : Uuid) : Finset Uuid := (d.filesOf o).image OrderFile.id

/-- The orders that have a mail of the account. -/
def ordersOf (a : ℕ) : Finset Uuid := (d.mailsBy a).image OrderMail.orderId

def orderOfFile (f : Uuid) : Option Uuid := (d.files.find? f).bind OrderFile.orderId

end Db

/-! ## What the statements do -/

/-- The counters of an order no row has joined. SOURCE: orders/repository.py:63-68 -/
def freshOrder (o : Uuid) : Order := ⟨o, ⟨0, 0, ⊤, ⊥, ⊤, ⊥⟩⟩

/-- The statements of a mail job once its target is known.
SOURCE: orders/worker.py:435-483 -/
def attachTo (o : Uuid) (g : Gate) (receivedAt : ℤ) : List Stmt :=
  [.attachMail o g receivedAt, .touch o, .recompute o, .endMail g]

/-- SOURCE: orders/worker.py:376-440 -/
def runCheckMail (snap : Db) (g : Gate) (receivedAt : ℤ) (target : Target) : List Stmt :=
  if snap.hasMail g then [.endMail g]
  else match target with
    | .none => []
    | .new o => .createOrder o :: attachTo o g receivedAt
    | .existing o => attachTo o g receivedAt

/-- `INSERT … ON CONFLICT DO NOTHING`. SOURCE: orders/repository.py:71-103 -/
def runAttachMail (cur : Db) (o : Uuid) (g : Gate) (receivedAt : ℤ) : Option Delta :=
  if cur.hasMail g then some {}
  else if cur.hasOrder o then some { mails := .put ⟨g, o, receivedAt⟩, shared := {o} }
  else none

/-- SOURCE: orders/repository.py:106-150 -/
def runRecompute (snap cur : Db) (o : Uuid) : Delta :=
  if snap.hasOrder o && cur.hasOrder o then { orders := .put ⟨o, snap.aggregates o⟩ } else {}

/-- What `recompute_aggregates` returns. -/
def remaining (snap cur : Db) (o : Uuid) : ℕ :=
  if snap.hasOrder o && cur.hasOrder o then
    (snap.aggregates o).mailCount + (snap.aggregates o).fileCount
  else 0

/-- An update of the order's row in other columns. -/
def runTouch (cur : Db) (o : Uuid) : Delta := if cur.hasOrder o then { touched := {o} } else {}

/-- A file whose row is gone or attached is left; one that names its order joins that.
SOURCE: orders/worker.py:500-550 -/
def runReadFile (snap : Db) (f : Uuid) (target : Target) : Option (List Stmt) :=
  match snap.files.find? f with
  | none => some []
  | some ⟨_, _, _, true⟩ => some []
  | some ⟨_, some o, _, false⟩ => some [.findOrder o f]
  | some ⟨_, none, _, false⟩ =>
    match target with
    | .none => none
    | .new o => some [.createOrder o, .findOrder o f]
    | .existing o => some [.findOrder o f]

/-- The row gets its order and its status; a row that is gone leaves the document that is
stored next without its file, which the foreign key refuses.
SOURCE: orders/worker.py:552-566 -/
def runPlaceFile (cur : Db) (o f : Uuid) : Option Delta :=
  match cur.files.find? f with
  | none => none
  | some r =>
    if cur.hasOrder o then
      some
        { files := .put { r with orderId := some o, attached := true }
          placed := {f}
          shared := {o} }
    else none

/-- The mails of the order in the snapshot that still are.
SOURCE: orders/repository.py:504-506 -/
def runMoveMails (snap cur : Db) (source target : Uuid) : Option Delta :=
  let moved := cur.mails.filter fun m => m.orderId = source ∧ m.gate ∈ snap.gatesOf source
  if moved.rows = ∅ then some {}
  else if cur.hasOrder target then
    some
      { mails := .putAll (moved.rewrite (fun m => { m with orderId := target }) fun _ => rfl)
        shared := {target} }
  else none

/-- SOURCE: orders/repository.py:509-511 -/
def runMoveFiles (snap cur : Db) (source target : Uuid) : Option Delta :=
  let moved := cur.files.filter fun r =>
    r.orderId = some source ∧ r.id ∈ snap.fileIdsOf source
  if moved.rows = ∅ then some {}
  else if cur.hasOrder target then
    some
      { files := .putAll (moved.rewrite (fun r => { r with orderId := some target })
          fun _ => rfl)
        shared := {target} }
  else none

/-- The order's row, and the rows the foreign keys cascade to.
SOURCE: orders/repository.py:542-548 -/
def runDeleteOrder (snap cur : Db) (o : Uuid) : Delta :=
  if snap.hasOrder o && cur.hasOrder o then
    { orders := .delete {o}
      mails := .delete (cur.gatesOf o)
      files := .delete (cur.fileIdsOf o) }
  else {}

/-- `delete_order` called for itself: what goes with the order is released. -/
def runRemoveOrder (snap cur : Db) (o : Uuid) : Delta :=
  if snap.hasOrder o && cur.hasOrder o then
    { orders := .delete {o}
      mails := .delete (cur.gatesOf o)
      files := .delete (cur.fileIdsOf o)
      released := cur.gatesOf o
      removed := cur.fileIdsOf o }
  else {}

/-- The statements that join a detached mail to its new order.
SOURCE: api/orders.py:620-632 -/
def joinTarget (g : Gate) (receivedAt : ℤ) : Option Uuid → List Stmt
  | none => []
  | some t => [.attachMail t g receivedAt, .recompute t, .touch t]

/-- SOURCE: api/orders.py:598-640 -/
def runReadMail (snap : Db) (o : Uuid) (g : Gate) (moveTo : Option Uuid) : Option (List Stmt) :=
  match snap.mails.find? g with
  | none => none
  | some m =>
    if m.orderId = o then
      some (moveTo.toList.map Stmt.requireOrder ++
        .deleteMail o g moveTo :: joinTarget g m.receivedAt moveTo ++ [.settle o])
    else none

/-- The row goes by its key; that it is of another order by then fails the call.
SOURCE: orders/repository.py:468-475; api/orders.py:617 -/
def runDeleteMail (snap cur : Db) (o : Uuid) (g : Gate) (moveTo : Option Uuid) :
    Option Delta :=
  if snap.hasMail g && decide (g ∈ cur.gatesOf o) then
    some { mails := .delete {g}, released := if moveTo = none then {g} else ∅ }
  else none

/-- The counters, and by what they say whether the order goes.
SOURCE: api/orders.py:634-640; orders/files.py:209-213; orders/repository.py:581-589 -/
def runSettle (snap cur : Db) (o : Uuid) : Delta × List Stmt :=
  (runRecompute snap cur o, if remaining snap cur o = 0 then [.deleteIfEmpty o] else [.touch o])

/-- SOURCE: orders/repository.py:445-454 -/
def runDeleteIfEmpty (snap : Db) (o : Uuid) : List Stmt :=
  match snap.orders.find? o with
  | none => []
  | some r =>
    if r.aggregates.mailCount = 0 ∧ r.aggregates.fileCount = 0 then [.deleteOrder o] else []

/-- SOURCE: orders/files.py:191-213 -/
def runDeleteFile (snap cur : Db) (o f : Uuid) : Option Delta :=
  if f ∈ snap.fileIdsOf o ∧ f ∈ cur.fileIdsOf o then
    some { files := .delete {f}, removed := {f} }
  else none

/-- The distinct orders, in whichever order the query gives them.
SOURCE: orders/repository.py:566-571 -/
def runFindOrders (snap : Db) (a : ℕ) (orders : List Uuid) : Option (List Stmt) :=
  if orders.Nodup ∧ orders.toFinset = snap.ordersOf a then
    some (.deleteMails a :: orders.map Stmt.settle)
  else none

/-- SOURCE: orders/repository.py:573 -/
def runDeleteMails (snap cur : Db) (a : ℕ) : Delta :=
  let gone := (snap.mailsBy a).image OrderMail.gate ∩ (cur.mailsBy a).image OrderMail.gate
  { mails := .delete gone, released := gone }

/-- SOURCE: orders/files.py:140-176 -/
def runCreateFile (cur : Db) (f : Uuid) (o : Option Uuid) (createdAt : ℤ) : Option Delta :=
  if (cur.files.find? f).isNone ∧ o.all cur.hasOrder then
    some
      { files := .put ⟨f, o, createdAt, false⟩
        placed := if o = none then ∅ else {f}
        shared := o.toFinset }
  else none

/-- A statement's effect, by its snapshot and by what is there now. -/
def run (snap cur : Db) : Stmt → Option (Delta × List Stmt)
  | .checkMail g receivedAt target => some ({}, runCheckMail snap g receivedAt target)
  | .createOrder o => if cur.hasOrder o then none else some ({ orders := .put (freshOrder o) }, [])
  | .attachMail o g receivedAt => (runAttachMail cur o g receivedAt).map (·, [])
  | .touch o => some (runTouch cur o, [])
  | .recompute o => some (runRecompute snap cur o, [])
  | .endMail g => some ({ ended := {g} }, [])
  | .readFile f target => (runReadFile snap f target).map ({}, ·)
  | .findOrder o f =>
    some ({}, if snap.hasOrder o then [.placeFile o f, .touch o, .recompute o] else [])
  | .placeFile o f => (runPlaceFile cur o f).map (·, [])
  | .requireOrder o => if snap.hasOrder o then some ({}, []) else none
  | .moveMails source target => (runMoveMails snap cur source target).map (·, [])
  | .moveFiles source target => (runMoveFiles snap cur source target).map (·, [])
  | .deleteOrder o => some (runDeleteOrder snap cur o, [])
  | .readMail o g moveTo => (runReadMail snap o g moveTo).map ({}, ·)
  | .deleteMail o g moveTo => (runDeleteMail snap cur o g moveTo).map (·, [])
  | .settle o => some (runSettle snap cur o)
  | .deleteIfEmpty o => some ({}, runDeleteIfEmpty snap o)
  | .deleteFile o f => (runDeleteFile snap cur o f).map (·, [.settle o])
  | .removeOrder o => some (runRemoveOrder snap cur o, [])
  | .findOrders a orders => (runFindOrders snap a orders).map ({}, ·)
  | .deleteMails a => some (runDeleteMails snap cur a, [])
  | .createFile f o createdAt => (runCreateFile cur f o createdAt).map (·, [])

/-- The statements a transaction begins with. The worker's jobs: orders/worker.py:364-632.
The API's calls: api/orders.py:490-655, orders/files.py:140-213 and
orders/repository.py:497-589. -/
def program : Kind → List Stmt
  | .mailJob g receivedAt target => [.checkMail g receivedAt target]
  | .fileJob f target => [.readFile f target]
  | .writeJob o => [.touch o]
  | .mergeOrder source target =>
    if source = target then []
    else [.requireOrder target, .requireOrder source, .moveMails source target,
      .moveFiles source target, .deleteOrder source, .recompute target, .touch target]
  | .detachMail o g moveTo => [.readMail o g moveTo]
  | .deleteFile o f => [.deleteFile o f]
  | .deleteOrder o => [.removeOrder o]
  | .deleteAccount a orders => [.findOrders a orders]
  | .upload f o createdAt => (o.toList.map Stmt.requireOrder) ++ [.createFile f o createdAt]

/-- The worker's jobs take `ORDERS_LOCK_KEY`. -/
def takesLock : Kind → Bool
  | .mailJob _ _ _ | .fileJob _ _ | .writeJob _ => true
  | _ => false

/-! ## Locks -/

namespace Delta

variable (c : Delta)

/-- Rows of `orders` under a lock that excludes another update. -/
def updated : Finset Uuid := c.orders.rows.keys ∪ c.touched

/-- Whether two statements of different transactions cannot both hold their rows: a deleted
row excludes everything, an update another update, and a reference only the deletion. -/
def conflicts (c' : Delta) : Bool :=
  decide (¬ Disjoint c.orders.gone (c'.orders.gone ∪ c'.updated ∪ c'.shared)) ||
  decide (¬ Disjoint c'.orders.gone (c.updated ∪ c.shared)) ||
  decide (¬ Disjoint c.updated c'.updated) ||
  decide (¬ Disjoint c.mails.keys c'.mails.keys) ||
  decide (¬ Disjoint c.files.keys c'.files.keys)

end Delta

def waits (ws : List Delta) (c : Delta) : Bool := ws.any fun w => w.conflicts c

/-! ## What the statements use -/

def wholeOrder (d : Db) (o : Uuid) : Finset Use :=
  {.order o} ∪ (d.gatesOf o).image Use.gate ∪ (d.fileIdsOf o).image Use.file

def uses (d : Db) : Stmt → Finset Use
  | .checkMail g _ _ => {.gate g}
  | .createOrder o => {.order o}
  | .attachMail o g _ => {.order o, .gate g}
  | .touch _ => ∅
  | .recompute o => {.order o}
  | .endMail _ => ∅
  | .readFile f _ => {.file f}
  | .findOrder o _ => {.order o}
  | .placeFile o f => {.order o, .file f} ∪ (d.orderOfFile f).toFinset.image Use.order
  | .requireOrder o => {.order o}
  | .moveMails source target => {.order target} ∪ wholeOrder d source
  | .moveFiles source target => {.order target} ∪ wholeOrder d source
  | .deleteOrder o => wholeOrder d o
  | .readMail o g _ => {.order o, .gate g}
  | .deleteMail o g _ => {.order o, .gate g}
  | .settle o => {.order o}
  | .deleteIfEmpty o => {.order o}
  | .deleteFile o f => {.order o, .file f}
  | .removeOrder o => wholeOrder d o
  | .findOrders a _ => {.account a} ∪ (d.ordersOf a).image Use.order
  | .deleteMails a => {.account a} ∪ (d.ordersOf a).image Use.order
  | .createFile f o _ => {.file f} ∪ o.toFinset.image Use.order

/-- Whether two uses concern the same rows. -/
def clash : Use → Use → Bool
  | .order o, .order o' => decide (o = o')
  | .gate g, .gate g' => decide (g = g')
  | .gate g, .account a => decide (g.1 = a)
  | .account a, .gate g => decide (g.1 = a)
  | .account a, .account a' => decide (a = a')
  | .file f, .file f' => decide (f = f')
  | _, _ => false

/-! ## The register -/

def engine : Engine Db Delta Stmt Use Kind Empty where
  write := Db.write
  run := run
  uses := uses
  waits := waits
  program := program
  takesLock := takesLock
  outside d _ := d

def emptyDb : Db := ⟨.empty, .empty, .empty, ∅, ∅, ∅, ∅⟩

abbrev State := Engine.State Db Delta Stmt Use

abbrev Label := Engine.Label Kind Empty

def system : TransitionSystem State Label := engine.system emptyDb

end MailVerdict.Model.OrderHousekeeping
