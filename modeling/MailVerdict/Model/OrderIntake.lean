import Mathlib.Data.List.Sort
import MailVerdict.Model.Glacier

/-!
# How a mail gets into the orders register

Three places insert a mail job: the pipeline's `orders` stage, the follow-up hook for a
message that lands in Sent, and a catch-up over the mail of the last days. Each reads a
row of `messages` first and inserts later, in the same or in another transaction, so a
read waits in `intakes` until its insert. The gate of a mail job is its key, which is
unique; `compute_msg_key` derives it, except in the follow-up hook.

The worker takes one job at a time under the advisory lock: one step reads (the mail's
current row, the switch, the verdict, the register), a later one writes what the model
answered. The API moves, detaches and merges without the lock.

A mail is what PostIMAP stores of the message itself. It has one row for each copy on the
server, and a resync gives each a new id. What a filter, the spam verdict or the model
answers is a choice of the label.

A job carries the mails it was enqueued for, whether it has been decided, and a row of the
register the mail it was decided from; `detached` lists the mails a person has taken out
of an order. No statement reads these.
-/

namespace MailVerdict.Model.OrderIntake

open MailVerdict.Computation
open Model.Glacier (Platform Uuid Time computeMsgKey)

inductive SpecialUse
  | inbox
  | archive
  | junk
  | trash
  | drafts
  | sent
deriving DecidableEq

/-- A message, whichever rows it has: two of one content differ in `uid`. -/
structure Mail where
  uid : ℕ
  accountId : Uuid
  messageId : Option String
  fromAddr : Option String
  subject : Option String
  receivedAt : Option Time
  sizeBytes : Option ℕ
deriving DecidableEq

/-- A row of `messages`, with the special use of the folder it is in. -/
structure Message where
  id : Uuid
  mail : Mail
  folderUse : Option SpecialUse
  threadId : Option Uuid
  isDraft : Bool
  imapUid : Option ℕ
  expunged : Bool
deriving DecidableEq

def Mail.msgKey (P : Platform) (m : Mail) : String :=
  computeMsgKey P m.accountId m.messageId m.fromAddr m.subject m.receivedAt m.sizeBytes

inductive Origin
  | live
  | thread
  | catchup
deriving DecidableEq

structure Intake where
  origin : Origin
  row : Message
deriving DecidableEq

/-- `message_id or str(id)`. SOURCE: orders/intake.py:88 -/
def followUpKey (row : Message) : String :=
  let header := row.mail.messageId.getD ""
  if header ≠ "" then header else toString row.id

/-- The key an insert is made under.
SOURCE: pipeline/effects.py:366; orders/intake.py:88; orders/catch_up.py:116-123 -/
def Intake.msgKey (P : Platform) (i : Intake) : String :=
  match i.origin with
  | .live | .catchup => i.row.mail.msgKey P
  | .thread => followUpKey i.row

inductive JobStatus
  | pending
  | claimed
  | done
  | failed
deriving DecidableEq

/-- `(account_id, msg_key)`. -/
abbrev Gate := Uuid × String

local instance lawfulGate : LawfulBEq Gate := inferInstance

/-- A mail job. SOURCE: database/models.py:2177-2267 -/
structure OrderJob where
  accountId : Uuid
  msgKey : String
  messageId : Uuid
  origin : Origin
  status : JobStatus
  decided : Bool
  mails : List Mail

def OrderJob.gate (j : OrderJob) : Gate := (j.accountId, j.msgKey)

inductive AttachedBy
  | ai
  | thread
  | user

/-- SOURCE: database/models.py:1991-2027 -/
structure OrderMail where
  orderId : Uuid
  accountId : Uuid
  msgKey : String
  messageId : Uuid
  threadId : Option Uuid
  attachedBy : AttachedBy
  mail : Mail

/-- `uq_order_mails_account_msg_key`. -/
def OrderMail.gate (r : OrderMail) : Gate := (r.accountId, r.msgKey)

structure Order where
  id : Uuid
  isSealed : Bool

/-- The worker's open transaction: its job and the row it loaded. -/
structure Tx where
  gate : Gate
  origin : Origin
  row : Message

structure State where
  nextId : Uuid
  ordersEnabled : Uuid → Bool
  messages : KeyedTable Message.id
  intakes : List Intake
  jobs : KeyedTable OrderJob.gate
  orders : KeyedTable Order.id
  orderMails : KeyedTable OrderMail.gate
  tx : Option Tx
  detached : List Mail

inductive Target
  | none
  | new
  | existing (orderId : Uuid)

inductive Label
  | setOrdersEnabled (accountId : Uuid) (enabled : Bool)
  | arrive (mail : Mail) (folderUse : Option SpecialUse) (threadId : Option Uuid) (isDraft : Bool)
  | resync (id : Uuid)
  | move (id : Uuid) (folderUse : Option SpecialUse)
  | setUid (id : Uuid) (imapUid : Option ℕ)
  | expunge (id : Uuid)
  | remove (id : Uuid)
  | read (origin : Origin) (id : Uuid)
  | enqueue (intake : Intake)
  | claim (gate : Gate)
  | begin (gate : Gate) (spam : Bool)
  | decide (target : Target)
  | rollback
  | complete (gate : Gate)
  | giveBack (gate : Gate)
  | fail (gate : Gate)
  | detach (gate : Gate) (moveTo : Option Uuid)
  | updateControls (orderId : Uuid) (isSealed : Bool)
  | merge (source target : Uuid)
  | deleteOrder (orderId : Uuid)

/-- SOURCE: orders/catch_up.py:38 -/
def excludedSpecialUse : List SpecialUse := [.junk, .trash, .drafts, .sent]

def Intake.job (P : Platform) (i : Intake) : OrderJob where
  accountId := i.row.mail.accountId
  msgKey := i.msgKey P
  messageId := i.row.id
  origin := i.origin
  status := .pending
  decided := false
  mails := [i.row.mail]

/-- What the insert does to the job that has its gate: the catch-up leaves it alone, the
other two refresh the row id.
SOURCE: orders/repository.py:264-282; orders/catch_up.py:155-158 -/
def Intake.refresh (i : Intake) (j : OrderJob) : OrderJob :=
  { j with
    messageId := if i.origin = .catchup then j.messageId else i.row.id
    mails := i.row.mail :: j.mails }

def Tx.orderMail (x : Tx) (orderId : Uuid) : OrderMail where
  orderId := orderId
  accountId := x.gate.1
  msgKey := x.gate.2
  messageId := x.row.id
  threadId := x.row.threadId
  attachedBy := if x.origin = .thread then .thread else .ai
  mail := x.row.mail

namespace State

variable (P : Platform) (s : State)

/-! ## The mailbox -/

def addMessage (mail : Mail) (folderUse : Option SpecialUse) (threadId : Option Uuid)
    (isDraft : Bool) : Option State :=
  if h : s.nextId ∉ s.messages.rows.map Message.id then
    some { s with
      nextId := s.nextId + 1
      messages := s.messages.insert
        { id := s.nextId, mail := mail, folderUse := folderUse, threadId := threadId
          isDraft := isDraft, imapUid := none, expunged := false } h }
  else none

/-- A new row for the same message in place of the old one. -/
def resync (id : Uuid) : Option State :=
  (s.messages.find? id).bind fun m =>
    { s with messages := s.messages.erase id }.addMessage m.mail m.folderUse m.threadId m.isDraft

def updateMessage (id : Uuid) (f : Message → Message) (hf : ∀ m, (f m).id = m.id) : State :=
  { s with messages := s.messages.update (fun m => decide (m.id = id)) f hf }

/-! ## Enqueuing -/

/-- Whether an order that accepts mail has a mail of the thread.
SOURCE: orders/intake.py:77-86; orders/candidates.py:39 -/
def threadKnown (accountId threadId : Uuid) : Bool :=
  s.orderMails.rows.any fun r => decide (r.accountId = accountId) &&
    decide (r.threadId = some threadId) &&
    s.orders.rows.any fun o => decide (o.id = r.orderId) && !o.isSealed

/-- Whether the place reads the row and goes on to enqueue it.
SOURCE: pipeline/stages/orders.py:54-87; orders/intake.py:52-86; orders/catch_up.py:88-131 -/
def considers (m : Message) : Origin → Bool
  | .live => s.ordersEnabled m.mail.accountId
  | .thread => s.ordersEnabled m.mail.accountId && decide (m.folderUse = some .sent) &&
      m.threadId.any fun t => s.threadKnown m.mail.accountId t
  | .catchup => !m.expunged && !m.isDraft &&
      m.folderUse.all (fun use => !excludedSpecialUse.contains use) &&
      (s.jobs.find? (m.mail.accountId, m.mail.msgKey P)).isNone

def read (origin : Origin) (id : Uuid) : Option State :=
  (s.messages.find? id).bind fun m =>
    if s.considers P m origin then some { s with intakes := ⟨origin, m⟩ :: s.intakes } else none

/-- `INSERT … ON CONFLICT DO NOTHING`.
SOURCE: orders/repository.py:233-282; orders/catch_up.py:147-161 -/
def enqueue (i : Intake) : State :=
  let job := i.job P
  let rest := s.intakes.erase i
  if h : job.gate ∈ s.jobs.rows.map OrderJob.gate then
    { s with
      intakes := rest
      jobs := s.jobs.update (fun j => decide (j.gate = job.gate)) i.refresh
        (fun _ => rfl) }
  else { s with intakes := rest, jobs := s.jobs.insert job h }

/-! ## The worker -/

def setStatus (g : Gate) (status : JobStatus) : State :=
  { s with
    jobs := s.jobs.update (fun j => decide (j.gate = g)) (fun j => { j with status := status })
      (fun _ => rfl) }

def change (g : Gate) (before after : JobStatus) : Option State :=
  (s.jobs.find? g).bind fun j => if j.status = before then some (s.setStatus g after) else none

/-- The live rows with the header, the best first.
SOURCE: orders/content.py:219-230 -/
def rowsWithHeader (g : Gate) : List Message :=
  ((s.messages.rows.filter fun m => decide (m.mail.accountId = g.1) &&
      decide (m.mail.messageId = some g.2) && !m.expunged).reverse).insertionSort
    fun a b => a.imapUid.isSome ∨ b.imapUid.isNone

/-- The mail's current row: the stored id's, else one with the header.
SOURCE: orders/content.py:209-230 -/
def loadOrderMail (j : OrderJob) : Option Message :=
  match s.messages.rows.find? fun m => decide (m.id = j.messageId) &&
      decide (m.mail.accountId = j.accountId) && !m.expunged with
  | some m => some m
  | none => if j.msgKey.startsWith "sha256:" then none else (s.rowsWithHeader j.gate).head?

/-- The outcome is written and the transaction commits. -/
def setDecided (g : Gate) : State :=
  { s with
    jobs := s.jobs.update (fun j => decide (j.gate = g)) (fun j => { j with decided := true })
      (fun _ => rfl) }

/-- The job's reads, up to the model call. A job that ends here has written its outcome.
SOURCE: orders/worker.py:370-400 -/
def beginMailJob (j : OrderJob) (spam : Bool) : State :=
  match s.loadOrderMail j with
  | none => s.setDecided j.gate
  | some m =>
    if !s.ordersEnabled j.accountId || spam || (s.orderMails.find? j.gate).isSome then
      s.setDecided j.gate
    else { s with tx := some ⟨j.gate, j.origin, m⟩ }

/-- `INSERT … ON CONFLICT DO NOTHING`. SOURCE: orders/repository.py:71-103 -/
def attachMail (r : OrderMail) : State :=
  if h : r.gate ∈ s.orderMails.rows.map OrderMail.gate then s
  else { s with orderMails := s.orderMails.insert r h }

def createOrder : Option State :=
  if h : s.nextId ∉ s.orders.rows.map Order.id then
    some { s with
      nextId := s.nextId + 1
      orders := s.orders.insert { id := s.nextId, isSealed := false } h }
  else none

/-- The writes after the model's answer, and the commit. An order that is gone makes the
insert fail.
SOURCE: orders/worker.py:426-470 -/
def writeDecision (x : Tx) : Target → Option State
  | .none => some ({ s with tx := none }.setDecided x.gate)
  | .new => s.createOrder.map fun t =>
    ({ t with tx := none }.attachMail (x.orderMail s.nextId)).setDecided x.gate
  | .existing o =>
    if (s.orders.find? o).isSome then
      some (({ s with tx := none }.attachMail (x.orderMail o)).setDecided x.gate)
    else none

/-! ## The API -/

/-- SOURCE: api/orders.py:614-656; orders/repository.py:457-490 -/
def detach (g : Gate) (moveTo : Option Uuid) : Option State :=
  (s.orderMails.find? g).bind fun r =>
    match moveTo with
    | none => some { s with orderMails := s.orderMails.erase g, detached := r.mail :: s.detached }
    | some o =>
      if (s.orders.find? o).isSome then
        some ({ s with orderMails := s.orderMails.erase g }.attachMail
          { r with orderId := o, attachedBy := .user })
      else none

/-- SOURCE: orders/repository.py:390-420 -/
def updateControls (o : Uuid) (isSealed : Bool) : State :=
  { s with
    orders := s.orders.update (fun r => decide (r.id = o))
      (fun r => { r with isSealed := isSealed }) (fun _ => rfl) }

/-- An order goes, and its mails with it. SOURCE: orders/repository.py:542-549 -/
def deleteOrder (o : Uuid) : State :=
  { s with
    orders := s.orders.erase o
    orderMails := s.orderMails.filter fun r => !decide (r.orderId = o) }

/-- SOURCE: orders/repository.py:499-539 -/
def mergeOrder (source target : Uuid) : Option State :=
  if source ≠ target ∧ (s.orders.find? source).isSome ∧ (s.orders.find? target).isSome then
    some ({ s with
      orderMails := s.orderMails.update (fun r => decide (r.orderId = source))
        (fun r => { r with orderId := target }) (fun _ => rfl) }.deleteOrder source)
  else none

end State

/-! ## Steps -/

def step (P : Platform) (s : State) : Label → Option State
  | .setOrdersEnabled accountId enabled =>
    some { s with ordersEnabled := Function.update s.ordersEnabled accountId enabled }
  | .arrive mail folderUse threadId isDraft => s.addMessage mail folderUse threadId isDraft
  | .resync id => s.resync id
  | .move id folderUse =>
    some (s.updateMessage id (fun m => { m with folderUse := folderUse }) fun _ => rfl)
  | .setUid id imapUid =>
    some (s.updateMessage id (fun m => { m with imapUid := imapUid }) fun _ => rfl)
  | .expunge id => some (s.updateMessage id (fun m => { m with expunged := true }) fun _ => rfl)
  | .remove id => some { s with messages := s.messages.erase id }
  | .read origin id => s.read P origin id
  | .enqueue i => if i ∈ s.intakes then some (s.enqueue P i) else none
  | .claim g => s.change g .pending .claimed
  | .begin g spam => (s.jobs.find? g).bind fun j =>
    if j.status = .claimed ∧ s.tx = none then some (s.beginMailJob j spam) else none
  | .decide target => s.tx.bind fun x => s.writeDecision x target
  | .rollback => if s.tx.isSome then some { s with tx := none } else none
  | .complete g => (s.jobs.find? g).bind fun j =>
    if j.decided then s.change g .claimed .done else none
  | .giveBack g => s.change g .claimed .pending
  | .fail g => s.change g .claimed .failed
  | .detach g moveTo => s.detach g moveTo
  | .updateControls o isSealed => some (s.updateControls o isSealed)
  | .merge source target => s.mergeOrder source target
  | .deleteOrder o => some (s.deleteOrder o)

/-- Nothing received, queued or registered. -/
def start : State where
  nextId := 0
  ordersEnabled _ := false
  messages := KeyedTable.empty
  intakes := []
  jobs := KeyedTable.empty
  orders := KeyedTable.empty
  orderMails := KeyedTable.empty
  tx := none
  detached := []

def system (P : Platform) : TransitionSystem State Label where
  init s := s = start
  step := step P

end MailVerdict.Model.OrderIntake
