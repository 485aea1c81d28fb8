import Mathlib.Data.List.Nodup
import Mathlib.Data.Int.Order.Basic
import MailVerdict.Computation.TransitionSystem

/-!
# The read-state reconcile of one folder

What a tick of the timer does to one Archive or Trash folder: the unread count gates it, the
rows without a UID and the top window of UIDs are read every time, and while the count says
that unread mail remains below, a cursor walks one more window down.

The rows are those of the folder, expunged ones among them. `unreadCount` is the column that
PostIMAP's trigger keeps; `cursor` is the folder's entry in the timer's `Cursors`, which no
restart has to preserve.
-/

namespace MailVerdict.Model.ReadState

open MailVerdict.Computation

abbrev Uuid := ℕ

/-- A row of `messages` in the folder. -/
structure Message where
  id : Uuid
  imapUid : Option ℕ
  expunged : Bool
  isSeen : Bool
deriving DecidableEq

def Message.live (m : Message) : Bool := !m.expunged

def Message.unread (m : Message) : Bool := m.live && !m.isSeen

/-- The folder's rows and count, and where the deep walk continues below. -/
structure Folder where
  messages : List Message
  unreadCount : ℕ
  cursor : Option ℤ
deriving DecidableEq

/-- `_WINDOW`. SOURCE: filing/read_state.py:70 -/
def window : ℕ := 500

/-- Whether the row's UID lies in `[low, high)`. -/
def Message.uidIn (low high : ℤ) (m : Message) : Bool :=
  m.imapUid.any fun uid : ℕ => decide (low ≤ (uid : ℤ)) && decide ((uid : ℤ) < high)

/-- `WINDOW_SQL`. SOURCE: filing/read_state.py:116-120 -/
def windowRows (f : Folder) (low high : ℤ) : List Message :=
  f.messages.filter fun m => m.live && m.uidIn low high

def Message.pending (m : Message) : Bool := m.live && m.imapUid.isNone

/-- `PENDING_SQL`. SOURCE: filing/read_state.py:124-128 -/
def pendingRows (f : Folder) : List Message :=
  (f.messages.filter Message.pending).take window

/-- `TOP_UID_SQL`; a row that is expunged counts. SOURCE: filing/read_state.py:131 -/
def topUid (f : Folder) : Option ℕ := (f.messages.filterMap Message.imapUid).max?

def hit (ids : List Uuid) (m : Message) : Bool := decide (m.id ∈ ids) && m.unread

def markRow (ids : List Uuid) (m : Message) : Message :=
  if hit ids m then { m with isSeen := true } else m

/-- `mark_seen_if_live`, and what the trigger makes of the count.
SOURCE: postimap/actions.py:392-426 -/
def markSeenIfLive (f : Folder) (ids : List Uuid) : Folder :=
  { f with
    messages := f.messages.map (markRow ids)
    unreadCount := f.unreadCount - f.messages.countP (hit ids) }

/-- The queries a tick makes besides the count's and the top UID's. -/
structure Reads where
  pending : Bool
  windows : List (ℤ × ℤ)

def noReads : Reads := ⟨false, []⟩

def lowOf (high : ℤ) : ℤ := max (high - window) 1

def unreadIds (rows : List Message) : List Uuid :=
  (rows.filter fun m => !m.isSeen).map Message.id

/-- `_reconcile_folder`. SOURCE: filing/read_state.py:143-181 -/
def reconcileFolder (f : Folder) : Folder × Reads :=
  if f.unreadCount = 0 then ({ f with cursor := none }, noReads)
  else
    let rows := pendingRows f
    match topUid f with
    | none => (markSeenIfLive f (unreadIds rows), ⟨true, []⟩)
    | some top =>
      let high : ℤ := top + 1
      let low := lowOf high
      let rows := rows ++ windowRows f low high
      let found := rows.countP fun m => !m.isSeen
      if low > 1 ∧ f.unreadCount > found then
        let deepHigh := min (f.cursor.getD low) low
        let deepLow := lowOf deepHigh
        let rows := rows ++ windowRows f deepLow deepHigh
        let cursor := if deepLow > 1 then some deepLow else none
        (markSeenIfLive { f with cursor := cursor } (unreadIds rows),
          ⟨true, [(low, high), (deepLow, deepHigh)]⟩)
      else (markSeenIfLive f (unreadIds rows), ⟨true, [(low, high)]⟩)

def tick (f : Folder) : Folder := (reconcileFolder f).1

/-! ## Ticks and arrivals -/

/-- What PostIMAP's schema and its trigger keep of a folder: row ids and UIDs are distinct, a
UID is positive, the count is that of the live unread rows; and the rows that wait for a UID
fit into the query that reads them. -/
structure WellFormed (f : Folder) : Prop where
  ids : (f.messages.map Message.id).Nodup
  distinct : (f.messages.filterMap Message.imapUid).Nodup
  uids : ∀ m ∈ f.messages, ∀ uid ∈ m.imapUid, 1 ≤ uid
  pending : f.messages.countP Message.pending ≤ window
  count : f.unreadCount = f.messages.countP Message.unread

/-- A tick of the timer, or new mail in the folder. -/
inductive Event
  | tick
  | arrive (m : Message)

/-- New mail: a live row whose UID, where it has one yet, is above every other. -/
def arrivable (f : Folder) (m : Message) : Bool :=
  m.live && decide (m.id ∉ f.messages.map Message.id) &&
    (match m.imapUid with
      | some uid => decide (1 ≤ uid) && (topUid f).all fun top => decide (top < uid)
      | none => decide (f.messages.countP Message.pending < window))

def arrive (f : Folder) (m : Message) : Folder :=
  { f with
    messages := f.messages ++ [m]
    unreadCount := f.unreadCount + if m.unread then 1 else 0 }

def step (f : Folder) : Event → Option Folder
  | .tick => some (tick f)
  | .arrive m => if arrivable f m then some (arrive f m) else none

/-- The folder under the timer, from any well-formed start and with any cursor. -/
def system : TransitionSystem Folder Event where
  init := WellFormed
  step := step

end MailVerdict.Model.ReadState
