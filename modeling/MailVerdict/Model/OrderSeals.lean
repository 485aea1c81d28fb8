import MailVerdict.Computation.KeyedTable
import MailVerdict.Computation.TransitionSystem

/-!
# Mail jobs and the seal

A mail job is one transaction under the orders advisory lock: it reads the orders that may
take the mail in three statements, waits for the model, attaches the mail, updates the
order's row, stores the documents and the numbers, and commits. `update_controls` is
another transaction, of one statement, that takes the row lock of its order but not the
advisory lock. Each statement sees what is committed when it runs.

Jobs come from the pipeline, the follow-up hook and the catch-up; which of them made one
is not read here, so a job may be enqueued at any moment. What the ranking keeps of the
orders it was given and what the model answers are choices of the label, within what
`rank_orders` and the answer's schema allow. Numbers are those `is_valid_identifier`
admits. What a job writes after it has the row is written at its commit; of what is read
there, whether another order holds a number decides only if that number is stored.
-/

namespace MailVerdict.Model.OrderSeals

open MailVerdict.Computation

abbrev Uuid := ℕ

abbrev Time := ℕ

structure Order where
  id : Uuid
  isSealed : Bool
  lastActivityAt : Option Time

structure OrderMail where
  orderId : Uuid
  accountId : Uuid
  msgKey : String
  threadId : Option Uuid
  receivedAt : Time
deriving DecidableEq

def OrderMail.gate (r : OrderMail) : Uuid × String := (r.accountId, r.msgKey)

structure OrderDocument where
  orderId : Uuid
  accountId : Uuid
  msgKey : String
  attachmentId : Uuid

def OrderDocument.gate (d : OrderDocument) : Uuid × String × Uuid :=
  (d.accountId, d.msgKey, d.attachmentId)

/-- A number, as `normalize_identifier` leaves it. -/
structure Number where
  kind : String
  value : String
  valueNorm : String

structure Identifier where
  orderId : Uuid
  number : Number

def Identifier.gate (f : Identifier) : Uuid × String := (f.orderId, f.number.valueNorm)

structure MailJob where
  accountId : Uuid
  msgKey : String
  threadId : Option Uuid
  receivedAt : Time
  attachments : List Uuid
deriving DecidableEq

inductive Target
  | none
  | new
  | existing (orderId : Uuid)

/-- Where a job's mail goes: an order, or one the transaction has created. -/
structure Decision where
  orderId : Uuid
  isNew : Bool
  numbers : List Number

inductive Phase
  | started
  | threadRead (thread : List Uuid)
  | windowRead (thread windowed : List Uuid)
  | candidatesRead (candidates : List Uuid)
  | answered (decision : Decision)
  | attached (decision : Decision) (inserted : Bool)
  | rowLocked (decision : Decision) (inserted : Bool)

structure Tx where
  job : MailJob
  phase : Phase

structure State where
  now : Time
  nextId : Uuid
  orders : KeyedTable Order.id
  orderMails : KeyedTable OrderMail.gate
  documents : KeyedTable OrderDocument.gate
  identifiers : KeyedTable Identifier.gate
  queue : List MailJob
  tx : Option Tx
  /-- The update of each order that has matched its row and not committed. -/
  controls : Uuid → Option Bool

inductive Label
  | tick (elapsed : ℕ)
  | enqueue (job : MailJob)
  | begin (job : MailJob)
  | readThread
  | readWindow
  | readExtras (ranked : List Uuid)
  | answer (target : Target) (numbers : List Number)
  | attach
  | lockRow
  | commit
  | rollback
  | updateControls (orderId : Uuid) (isSealed : Bool)
  | commitControls (orderId : Uuid)
  | rollbackControls (orderId : Uuid)

/-- `_LOAD_WINDOW_DAYS` and `_IDENTIFIER_WINDOW_DAYS`, in seconds. -/
def windowSeconds : ℕ := 365 * 86400

def maxCandidates : ℕ := 8

/-- `ACCEPTS_MAIL`. SOURCE: orders/candidates.py:39 -/
def Order.acceptsMail (o : Order) : Bool := !o.isSealed

/-- `last_activity_at >= now - 365 days`. -/
def Order.activeAt (o : Order) (now : Time) : Bool :=
  o.lastActivityAt.any fun t => decide (now ≤ t + windowSeconds)

def MailJob.orderMail (j : MailJob) (d : Decision) : OrderMail where
  orderId := d.orderId
  accountId := j.accountId
  msgKey := j.msgKey
  threadId := j.threadId
  receivedAt := j.receivedAt

def MailJob.document (j : MailJob) (d : Decision) (attachmentId : Uuid) : OrderDocument where
  orderId := d.orderId
  accountId := j.accountId
  msgKey := j.msgKey
  attachmentId := attachmentId

namespace State

variable (s : State)

def order? (id : Uuid) : Option Order := s.orders.find? id

/-- The orders with a mail of the thread that accept mail.
SOURCE: orders/candidates.py:259-268 -/
def threadOrders (j : MailJob) : List Uuid :=
  match j.threadId with
  | none => []
  | some t =>
    ((s.orderMails.rows.filter fun r => decide (r.accountId = j.accountId) &&
        decide (r.threadId = some t) && (s.order? r.orderId).any Order.acceptsMail).map
      OrderMail.orderId).dedup

/-- SOURCE: orders/candidates.py:270-276 -/
def windowedOrders : List Uuid :=
  (s.orders.rows.filter fun o => o.activeAt s.now && o.acceptsMail).map Order.id

/-- The orders of the thread that the window left out; whether they accept mail is not
asked again. SOURCE: orders/candidates.py:278-284 -/
def extraOrders (thread windowed : List Uuid) : List Uuid :=
  (s.orders.rows.filter fun o => decide (o.id ∈ thread) && decide (o.id ∉ windowed)).map Order.id

def setPhase (x : Tx) (phase : Phase) : State := { s with tx := some { x with phase := phase } }

/-- What `rank_orders` may return of what it was given.
SOURCE: orders/candidates.py:286-297, 300-399 -/
def readExtras (x : Tx) (thread windowed ranked : List Uuid) : Option State :=
  if ranked.Nodup ∧ ranked.length ≤ maxCandidates ∧
      ∀ o ∈ ranked, o ∈ windowed ++ s.extraOrders thread windowed then
    some (s.setPhase x (.candidatesRead ranked))
  else none

/-- The model's answer: a candidate, a new order, or none, which ends the job.
SOURCE: orders/worker.py:418-440 -/
def answer (x : Tx) (candidates : List Uuid) (numbers : List Number) : Target → Option State
  | .none => some { s with tx := none }
  | .new => some { s.setPhase x (.answered ⟨s.nextId, true, numbers⟩) with nextId := s.nextId + 1 }
  | .existing o =>
    if o ∈ candidates then some (s.setPhase x (.answered ⟨o, false, numbers⟩)) else none

/-- `attach_mail`, whose insert a committed row of the mail turns into nothing.
SOURCE: orders/worker.py:442-458; orders/repository.py:71-103 -/
def attach (x : Tx) (d : Decision) : State :=
  s.setPhase x (.attached d
    !((s.orderMails.rows.map OrderMail.gate).contains (x.job.accountId, x.job.msgKey)))

/-- The first update of the order's row, which waits for an update that is not committed.
SOURCE: orders/worker.py:459-460, 471; orders/repository.py:382-387 -/
def lockRow (x : Tx) (d : Decision) (inserted : Bool) : Option State :=
  if s.controls d.orderId = none then some (s.setPhase x (.rowLocked d inserted)) else none

/-- Whether an update of the order's row has to wait for the job. -/
def rowHeld (o : Uuid) : Bool :=
  match s.tx with
  | some ⟨_, .rowLocked d _⟩ => decide (d.orderId = o)
  | _ => false

/-! ## What a job writes -/

def addOrder (d : Decision) : State :=
  if h : d.isNew = true ∧ d.orderId ∉ s.orders.rows.map Order.id then
    { s with orders := s.orders.insert ⟨d.orderId, false, none⟩ h.2 }
  else s

def addMail (j : MailJob) (d : Decision) : State :=
  { s with orderMails := s.orderMails.insertAll [MailJob.orderMail j d] }

/-- One document, stored or taken over from another order.
SOURCE: orders/documents.py:193-209 -/
def addDocument (j : MailJob) (d : Decision) (s : State) (attachmentId : Uuid) : State :=
  let row := MailJob.document j d attachmentId
  { s with
    documents := (s.documents.update (fun r => decide (r.gate = row.gate))
      (fun r => { r with orderId := d.orderId }) (fun _ => rfl)).insertAll [row] }

/-- Whether another order that accepts mail and was active within the window holds the
number. SOURCE: orders/repository.py:177-186 -/
def heldElsewhere (orderId : Uuid) (valueNorm : String) : Bool :=
  s.identifiers.rows.any fun f => decide (f.number.valueNorm = valueNorm) &&
    decide (f.orderId ≠ orderId) &&
    (s.order? f.orderId).any fun o => o.activeAt s.now && o.acceptsMail

/-- SOURCE: orders/repository.py:153-230 -/
def upsertIdentifierFact (d : Decision) (s : State) (n : Number) : State :=
  if s.heldElsewhere d.orderId n.valueNorm then s
  else { s with identifiers := s.identifiers.insertAll [⟨d.orderId, n⟩] }

/-- The order's activity over its mails. SOURCE: orders/repository.py:106-150 -/
def recompute (d : Decision) : State :=
  { s with
    orders := s.orders.update (fun o => decide (o.id = d.orderId))
      (fun o => { o with
        lastActivityAt := ((s.orderMails.rows.filter fun r => decide (r.orderId = o.id)).map
          OrderMail.receivedAt).max? }) (fun _ => rfl) }

/-- What the transaction has made of the tables when it commits. Documents come with the
mail alone; the numbers are stored in any case.
SOURCE: orders/worker.py:437-483 -/
def commit (j : MailJob) (d : Decision) (inserted : Bool) : State :=
  let t := s.addOrder d
  let t := if inserted then j.attachments.foldl (addDocument j d) (t.addMail j d) else t
  { (d.numbers.foldl (upsertIdentifierFact d) t).recompute d with tx := none }

/-! ## The seal -/

/-- The update of one order's row; it waits for whoever has the row. An order that is not
there, or not yet, matches nothing.
SOURCE: orders/repository.py:390-420 -/
def updateControls (o : Uuid) (isSealed : Bool) : Option State :=
  if (s.order? o).isNone then some s
  else if s.controls o = none ∧ s.rowHeld o = false then
    some { s with controls := Function.update s.controls o (some isSealed) }
  else none

def commitControls (o : Uuid) : Option State :=
  (s.controls o).map fun isSealed =>
    { s with
      controls := Function.update s.controls o none
      orders := s.orders.update (fun r => decide (r.id = o))
        (fun r => { r with isSealed := isSealed }) (fun _ => rfl) }

end State

def step (s : State) : Label → Option State
  | .tick elapsed => some { s with now := s.now + elapsed }
  | .enqueue j => some { s with queue := j :: s.queue }
  | .begin j =>
    if j ∈ s.queue ∧ s.tx = none then
      some { s with queue := s.queue.erase j, tx := some ⟨j, .started⟩ }
    else none
  | .readThread => s.tx.bind fun x =>
    match x.phase with
    | .started => some (s.setPhase x (.threadRead (s.threadOrders x.job)))
    | _ => none
  | .readWindow => s.tx.bind fun x =>
    match x.phase with
    | .threadRead thread => some (s.setPhase x (.windowRead thread s.windowedOrders))
    | _ => none
  | .readExtras ranked => s.tx.bind fun x =>
    match x.phase with
    | .windowRead thread windowed => s.readExtras x thread windowed ranked
    | _ => none
  | .answer target numbers => s.tx.bind fun x =>
    match x.phase with
    | .candidatesRead candidates => s.answer x candidates numbers target
    | _ => none
  | .attach => s.tx.bind fun x =>
    match x.phase with
    | .answered d => some (s.attach x d)
    | _ => none
  | .lockRow => s.tx.bind fun x =>
    match x.phase with
    | .attached d inserted => s.lockRow x d inserted
    | _ => none
  | .commit => s.tx.bind fun x =>
    match x.phase with
    | .rowLocked d inserted => some (s.commit x.job d inserted)
    | _ => none
  | .rollback => s.tx.map fun x => { s with tx := none, queue := x.job :: s.queue }
  | .updateControls o isSealed => s.updateControls o isSealed
  | .commitControls o => s.commitControls o
  | .rollbackControls o =>
    (s.controls o).map fun _ => { s with controls := Function.update s.controls o none }

def start : State where
  now := 0
  nextId := 0
  orders := KeyedTable.empty
  orderMails := KeyedTable.empty
  documents := KeyedTable.empty
  identifiers := KeyedTable.empty
  queue := []
  tx := none
  controls _ := none

def system : TransitionSystem State Label where
  init s := s = start
  step := step

end MailVerdict.Model.OrderSeals
