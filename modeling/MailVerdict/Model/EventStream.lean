import MailVerdict.Computation.BoundedLog
import MailVerdict.Computation.TransitionSystem

/-!
# The event ring and one open stream

`api/event_ring.py` keeps the last `max_size` events of each account under one
global counter; `_sse_generator` of `api/events.py` reads it for one client.

The generator is a state machine whose states are its suspension points: a frame
handed to the client and not yet taken (`yield`), the disconnect test at the head
of the loop, the wait for the waiter. `resume` runs it from one suspension point
to the next; the ring's lock is never held across one, so `add` and
`replay_from` are atomic and adds interleave with resumes only. A suspended yield
may last as long as the run likes.

The state also keeps what no code keeps, the history of every event ever added
and the id the stream was connected or replayed at, to say what was lost.

SOURCE: api/event_ring.py:74-225, api/events.py:42-72, api/events.py:190-296
-/

namespace MailVerdict.Model.EventStream

open MailVerdict.Computation

/-- `str(account_id)` of a UUID: never the empty string. -/
abbrev AccountId := ℕ

/-- An event of a ring, with the account whose ring it is in. -/
structure Event where
  id : ℕ
  accountId : AccountId
  eventType : String
  data : String
deriving DecidableEq

def sseEventTypes : List String :=
  ["account.changed", "alert.dismissed", "alert.new", "calendar.account", "calendar.collection",
    "calendar.links_changed", "calendar.object", "connected", "contact.collection",
    "contact.object", "folder.changed", "folder.synced", "identity.changed", "mail.deleted",
    "mail.new", "mail.updated", "notification.new", "order.updated", "outbox.updated",
    "pipeline.document_changed", "pipeline.notify", "pipeline.run_finished", "resync",
    "settings.changed", "verdict.issued"]

/-! ## The ring -/

/-- `_rings` as its keys in insertion order and its values; a key that is absent
has no events. -/
structure EventRing where
  maxSize : ℕ
  maxSize_pos : 0 < maxSize
  seq : ℕ
  accounts : List AccountId
  rings : AccountId → List Event

inductive AddError
  | unregistered (eventType : String)

namespace EventRing

def empty (maxSize : ℕ) (h : 0 < maxSize) : EventRing := ⟨maxSize, h, 0, [], fun _ => []⟩

/-- The event `add` appends. -/
def nextEvent (r : EventRing) (accountId : AccountId) (eventType data : String) : Event :=
  ⟨r.seq + 1, accountId, eventType, data⟩

def add (r : EventRing) (accountId : AccountId) (eventType data : String) :
    Except AddError (EventRing × ℕ) :=
  if eventType ∉ sseEventTypes then .error (.unregistered eventType)
  else
    let event := r.nextEvent accountId eventType data
    let ring := BoundedLog.push r.maxSize (r.rings accountId) event
    .ok ({ r with
      seq := r.seq + 1
      accounts := if accountId ∈ r.accounts then r.accounts else r.accounts ++ [accountId]
      rings := Function.update r.rings accountId ring }, r.seq + 1)

/-- The empty list answers both "nothing new" and "gap too large". -/
def replayFrom (r : EventRing) (lastEventId : ℕ) : Option AccountId → List Event
  | some accountId =>
    match (r.rings accountId).head? with
    | none => []
    | some oldest =>
      if lastEventId < oldest.id then []
      else (r.rings accountId).filter fun e => decide (lastEventId < e.id)
  | none =>
    (r.accounts.flatMap fun a => (r.rings a).filter fun e => decide (lastEventId < e.id)).insertionSort
      fun a b => a.id ≤ b.id

def hasEventsAfter (r : EventRing) (lastEventId : ℕ) : Option AccountId → Bool
  | some accountId =>
    match (r.rings accountId).head? with
    | none => false
    | some oldest => decide (oldest.id ≤ lastEventId)
  | none =>
    r.accounts.all fun a => match (r.rings a).head? with
      | none => true
      | some oldest => decide (oldest.id ≤ lastEventId)

end EventRing

/-! ## The stream -/

/-- One frame as `_format_sse` writes it; the `ping` heartbeat has no id. -/
structure Frame where
  id : Option ℕ
  eventType : String
  data : String
deriving DecidableEq

def Event.frame (e : Event) : Frame := ⟨some e.id, e.eventType, e.data⟩

def pingFrame : Frame := ⟨none, "ping", "\x7b\x7d"⟩

/-- A frame that tells the client to drop what it knows up to the frame's id. -/
def Frame.Announces (f : Frame) : Prop := f.eventType = "resync" ∨ f.eventType = "connected"

instance (f : Frame) : Decidable f.Announces := inferInstanceAs (Decidable (_ ∨ _))

/-- The suspension points of `_sse_generator`. `opening` and `handing` are a
frame handed over in the replay and in the live loop, with the events the loop
has still to hand over and the `last_seen` it goes on with. -/
inductive Pc
  | created (lastEventId : Option ℤ)
  | opening (rest : List Event) (lastSeen : ℕ)
  | loopHead (lastSeen : ℕ)
  | waiting (lastSeen : ℕ)
  | handing (rest : List Event) (lastSeen : ℕ)
  | pinged (lastSeen : ℕ)
  | closed

/-- The ring, one stream on it, and the ghosts `history` and `since`. -/
structure State where
  ring : EventRing
  accountId : Option AccountId
  waiterSet : Bool
  pc : Pc
  frames : List Frame
  history : List Event
  since : ℕ

/-- Whether a stream with this filter carries an account's events. -/
def inScope (filter : Option AccountId) (accountId : AccountId) : Prop :=
  match filter with
  | some a => accountId = a
  | none => True

instance (filter : Option AccountId) (a : AccountId) : Decidable (inScope filter a) := by
  unfold inScope
  cases filter <;> infer_instance

inductive Label
  | add (accountId : AccountId) (eventType data : String)
  | resume
  | timeout
  | disconnect

/-- The replay loop up to its next `yield`, or on to the live loop. -/
def openNext (s : State) (rest : List Event) (lastSeen : ℕ) : State :=
  match rest with
  | [] => { s with pc := .loopHead lastSeen }
  | e :: rest => { s with frames := s.frames ++ [e.frame], pc := .opening rest lastSeen }

/-- The live loop's `for` up to its next `yield`, or back to the loop head. -/
def handNext (s : State) (rest : List Event) (lastSeen : ℕ) : State :=
  match rest with
  | [] => { s with pc := .loopHead lastSeen }
  | e :: rest => { s with frames := s.frames ++ [e.frame], pc := .handing rest e.id }

/-- The `connected` or `resync` frame, carrying the counter. -/
def announce (s : State) (eventType : String) : State :=
  { s with
    frames := s.frames ++ [⟨some s.ring.seq, eventType, "\x7b\x7d"⟩]
    pc := .opening [] s.ring.seq
    since := s.ring.seq }

/-- `_sse_generator` up to its first suspension. -/
def openStream (s : State) : Option ℤ → State
  | some lastEventId =>
    if 0 ≤ lastEventId ∧ lastEventId ≤ s.ring.seq ∧
        s.ring.hasEventsAfter lastEventId.toNat s.accountId then
      let missed := s.ring.replayFrom lastEventId.toNat s.accountId
      let lastSeen := match missed.getLast? with
        | some e => e.id
        | none => lastEventId.toNat
      openNext { s with since := lastEventId.toNat } missed lastSeen
    else announce s "resync"
  | none => announce s "connected"

/-- From the loop head: clear the waiter, read the ring, hand over or wait. -/
def poll (s : State) (lastSeen : ℕ) : State :=
  let s := { s with waiterSet := false }
  match s.ring.replayFrom lastSeen s.accountId with
  | [] => { s with pc := .waiting lastSeen }
  | newEvents => handNext s newEvents lastSeen

/-- A step. The wait ends by the waiter (`resume`, once it is set) or by
`timeout`; the stream may be closed at any suspension point. -/
def step (s : State) : Label → Option State
  | .add accountId eventType data =>
    match s.ring.add accountId eventType data with
    | .error _ => some s
    | .ok (ring, _) =>
      some { s with
        ring := ring
        waiterSet := s.waiterSet || decide (inScope s.accountId accountId)
        history := s.history ++ [s.ring.nextEvent accountId eventType data] }
  | .resume =>
    match s.pc with
    | .created lastEventId => some (openStream s lastEventId)
    | .opening rest lastSeen => some (openNext s rest lastSeen)
    | .loopHead lastSeen => some (poll s lastSeen)
    | .waiting lastSeen =>
      if s.waiterSet then
        some (handNext s (s.ring.replayFrom lastSeen s.accountId) lastSeen)
      else none
    | .handing rest lastSeen => some (handNext s rest lastSeen)
    | .pinged lastSeen => some { s with pc := .loopHead lastSeen }
    | .closed => none
  | .timeout =>
    match s.pc with
    | .waiting lastSeen =>
      some { s with frames := s.frames ++ [pingFrame], pc := .pinged lastSeen }
    | _ => none
  | .disconnect => some { s with pc := .closed }

/-- A fresh ring and a stream that has not started: events may come first. -/
def start (maxSize : ℕ) (h : 0 < maxSize) (accountId : Option AccountId)
    (lastEventId : Option ℤ) : State :=
  ⟨.empty maxSize h, accountId, false, .created lastEventId, [], [], 0⟩

/-- Every ring size, filter and `Last-Event-ID`. -/
def system : TransitionSystem State Label where
  init s := ∃ maxSize h accountId lastEventId, s = start maxSize h accountId lastEventId
  step := step

end MailVerdict.Model.EventStream

/-!
# Reconnecting to the event ring

A client that reconnects sends the last id it was handed, `<epoch>-<seq>`; the endpoint reads
it back, and the stream replays from it when the ring issued it and still has every id after
it. The ring here is one that was only ever added to.
-/

namespace MailVerdict.Model.EventStream

/-- `secrets.token_hex(4)`.
SOURCE: api/event_ring.py:52 -/
structure Epoch where
  text : String
  hex : ∀ c ∈ text.toList, c ∈ "0123456789abcdef".toList

/-- `str.isdigit` and `int` on one, which reads no digit it has no decimal value for. -/
structure PythonDigits where
  isDigit : String → Bool
  int : String → Option ℕ

/-- SOURCE: api/event_ring.py:54-56 -/
def formatEventId (epoch : Epoch) (seq : ℕ) : String := epoch.text ++ "-" ++ toString seq

/-- `raw.partition(sep)` on a one-character separator: what stands before it, whether it is
there, and what stands after. -/
def partition (raw : String) (sep : Char) : String × Bool × String :=
  let chars := raw.toList
  (String.ofList (chars.takeWhile fun c => c ≠ sep), decide (sep ∈ chars),
    String.ofList ((chars.dropWhile fun c => c ≠ sep).drop 1))

inductive ParseError
  | valueError

/-- SOURCE: api/event_ring.py:58-72 -/
def parseEventId (py : PythonDigits) (epoch : Epoch) (raw : String) :
    Except ParseError (Option ℕ) :=
  let (head, sep, seq) := partition raw '-'
  if !sep || head ≠ epoch.text || !py.isDigit seq then .ok none
  else
    match py.int seq with
    | some n => .ok (some n)
    | none => .error .valueError

/-- SOURCE: api/events.py:189 -/
def foreignEventId : ℤ := -1

/-- The `last_event_id` a stream is opened with; an empty header is none.
SOURCE: api/events.py:344-352 -/
def lastEventId (py : PythonDigits) (epoch : Epoch) : Option String → Except ParseError (Option ℤ)
  | none => .ok none
  | some raw =>
    if raw = "" then .ok none
    else (parseEventId py epoch raw).map fun parsed =>
      match parsed with
      | none => some foreignEventId
      | some n => some (n : ℤ)

namespace EventRing

/-- Whether `_sse_generator` replays from an id.
SOURCE: api/events.py:229-237 -/
def replayable (r : EventRing) (lastEventId : ℤ) (filter : Option AccountId) : Bool :=
  decide (0 ≤ lastEventId ∧ lastEventId ≤ r.seq) && r.hasEventsAfter lastEventId.toNat filter

/-- Calls of `add`, one after the other, and the events they added. One of an unregistered type
raises and adds nothing. -/
def addAll (r : EventRing) : List (AccountId × String × String) → EventRing × List Event
  | [] => (r, [])
  | (accountId, eventType, data) :: calls =>
    match r.add accountId eventType data with
    | .error _ => r.addAll calls
    | .ok (ring, _) =>
      ((ring.addAll calls).1, r.nextEvent accountId eventType data :: (ring.addAll calls).2)

end EventRing

end MailVerdict.Model.EventStream
