import MailVerdict.Model.IntentLedger

/-!
# The echo of an own action

A page buffers the events of mail changes and re-reads what they touch at a flush
(`ui/src/hooks/use-sse.ts`). An own action re-reads what it touched once it is answered
(`ui/src/hooks/use-mail-intents.ts`), so an event of its change is dropped as an echo; with the
request still out it is held (`ui/src/lib/mail-event-buffer.ts`).

Events carry no author. Here the changes of everyone are numbered as they are committed, a
re-read covers those committed before it begins, and the ledger takes any step of the drainer
or of the person, at once in every page. Clocks only go forward. A re-read fetches the records of
the messages an intent names and the open lists of its folders; which lists those are, and which
an event asks for, is left out.
-/

namespace MailVerdict.Model.EchoTriage

open MailVerdict.Computation Model.MailActions Model.MailIntents
open Model.IntentLedger

/-! ## Triage -/

def echoGraceMs : Time := 1500

def echoHoldMaxMs : Time := 5000

/-- An event of the buffer: the message it names, if any, and when it arrived; with it, the number
of the change it reports.
SOURCE: ui/src/lib/mail-event-buffer.ts:25-36 -/
structure BufferedMailEvent where
  id : Option Uuid
  arrivedAt : Time
  change : ℕ
deriving DecidableEq

inductive Echo
  | none
  | settled
  | inflight
deriving DecidableEq

/-- SOURCE: ui/src/lib/mail-event-buffer.ts:54-60 -/
def touches (i : MailIntent) (id : Uuid) : Bool :=
  (i.messages.any fun m => decide (m.id = id)) || decide (id ∈ i.skippedIds) ||
    i.sources.any fun s => decide (s.1 = id)

/-- Whether an event comes after a request for its message was first sent. -/
def mayEcho (id : Uuid) (arrivedAt : Time) (i : MailIntent) : Bool :=
  (i.firstSentAt.any fun sent => decide (sent ≤ arrivedAt)) && touches i id

/-- Whether the answer of an intent covers an event. -/
def settledEcho (id : Uuid) (arrivedAt : Time) (i : MailIntent) : Bool :=
  mayEcho id arrivedAt i && decide (i.state = .done) &&
    decide (arrivedAt ≤ i.doneAt.getD 0 + echoGraceMs)

section OwnEcho

variable (id : Uuid) (arrivedAt : Time)

/-- The loop of `ownEcho`, with what it found so far. -/
def ownEchoFrom (echo : Echo) : List MailIntent → Echo
  | [] => echo
  | i :: rest =>
    if !mayEcho id arrivedAt i then ownEchoFrom echo rest
    else if settledEcho id arrivedAt i then .settled
    else ownEchoFrom (if i.state = .inflight then .inflight else echo) rest

/-- SOURCE: ui/src/lib/mail-event-buffer.ts:62-78 -/
def ownEcho (intents : List MailIntent) : Echo := ownEchoFrom id arrivedAt .none intents

end OwnEcho

section Triage

variable (intents : List MailIntent) (now : Time)

def echoOf (e : BufferedMailEvent) : Echo :=
  match e.id with
  | some id => ownEcho id e.arrivedAt intents
  | none => .none

/-- Whether an event is held for another look. -/
def held (e : BufferedMailEvent) : Bool :=
  decide (echoOf intents e = .inflight) && decide (now < e.arrivedAt + echoHoldMaxMs)

def dropped (e : BufferedMailEvent) : Bool := decide (echoOf intents e = .settled)

/-- The events to act on and the events to hold.
SOURCE: ui/src/lib/mail-event-buffer.ts:80-93 -/
def triageMailEvents (events : List BufferedMailEvent) :
    List BufferedMailEvent × List BufferedMailEvent :=
  (events.filter fun e => !dropped intents e && !held intents now e,
    events.filter fun e => held intents now e)

end Triage

/-! ## Runs -/

/-- A re-read that follows an answer: the intent, and how many changes were committed before it
began. -/
structure Reread where
  intentId : IntentId
  through : ℕ

structure DroppedEcho where
  event : BufferedMailEvent
  echoOf : List IntentId

/-- The ledger, the messages changed so far, and a page: its re-reads after answers, its buffer,
whether a flush is due and when the last one was. `arrived`, `applied` and `echoes` list every
event that arrived, was acted on or was dropped; no step reads them. -/
structure State where
  client : IntentLedger.State
  clock : Time
  changes : List (Option Uuid)
  rereads : List Reread
  pending : List BufferedMailEvent
  flushDue : Bool
  flushedAt : Time
  arrived : List BufferedMailEvent
  applied : List BufferedMailEvent
  echoes : List DroppedEcho

inductive Label
  | client (l : IntentLedger.Label)
  | change (id : Option Uuid)
  | arrive (n : ℕ)
  | flush

/-- The intents answered by a step of the ledger: done, and not so before in this generation.
SOURCE: ui/src/hooks/use-mail-intents.ts:498-506 -/
def answeredNow (before after : List MailIntent) : List MailIntent :=
  after.filter fun i => decide (i.state = .done) &&
    !before.any fun j => decide (j.id = i.id) && decide (j.generation = i.generation) &&
      decide (j.state = .done)

namespace State

variable (s : State)

def intents : List MailIntent := s.client.ledger.intents.rows

/-- The ledger changes, and every intent it answers is re-read.
SOURCE: ui/src/hooks/use-mail-intents.ts:441-463 -/
def clientStep (now : Time) (client : IntentLedger.State) : State :=
  { s with
    client := client, clock := now
    rereads := s.rereads ++
      (answeredNow s.intents client.ledger.intents.rows).map fun i => ⟨i.id, s.changes.length⟩ }

/-- The event of a change is buffered, and a flush is due.
SOURCE: ui/src/hooks/use-sse.ts:156-173 -/
def arrive (now : Time) (n : ℕ) (id : Option Uuid) : State :=
  let e : BufferedMailEvent := ⟨id, now, n⟩
  { s with
    clock := now, pending := s.pending ++ [e], flushDue := true, arrived := s.arrived ++ [e] }

def settledBy (e : BufferedMailEvent) : List IntentId :=
  match e.id with
  | some id => (s.intents.filter (settledEcho id e.arrivedAt)).map MailIntent.id
  | none => []

/-- SOURCE: ui/src/hooks/use-sse.ts:130-154 -/
def flush (now : Time) : State :=
  let triage := triageMailEvents s.intents now s.pending
  { s with
    clock := now, pending := triage.2, flushDue := !triage.2.isEmpty, flushedAt := now
    applied := s.applied ++ triage.1
    echoes := s.echoes ++ (s.pending.filter (dropped s.intents)).map fun e => ⟨e, s.settledBy e⟩ }

end State

def step (s : State) : Time × Label → Option State
  | (now, l) =>
    if now < s.clock then none
    else
      match l with
      | .client l => (IntentLedger.step s.client (now, l)).map (s.clientStep now)
      | .change id => some { s with clock := now, changes := s.changes ++ [id] }
      | .arrive n => s.changes[n]?.map (s.arrive now n)
      | .flush => if s.flushDue then some (s.flush now) else none

/-- A page that opened before the first action. -/
def start : State where
  client := IntentLedger.start
  clock := 0
  changes := []
  rereads := []
  pending := []
  flushDue := false
  flushedAt := 0
  arrived := []
  applied := []
  echoes := []

def system : TransitionSystem State (Time × Label) where
  init s := s = start
  step := step

end MailVerdict.Model.EchoTriage
