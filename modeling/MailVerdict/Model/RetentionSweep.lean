import Mathlib.Data.List.Sort
import MailVerdict.Computation.KeyedTable
import MailVerdict.Computation.TransitionSystem

/-!
# The retention sweep

A sweep of one role is one transaction of four statements: stamp the messages newly seen
in a folder of the role, drop the entries whose message is not in one, read what is
overdue, expunge it. Each statement sees what is committed when it runs; `now()` is the
transaction's start in all of them. Only the sweep touches `retention_entries`, so what
its transaction made of the table is a field of the sweep until it commits. An advisory
lock keeps sweeps apart.

Between any two statements messages come, move, are expunged or get a new row id, folders
change their role, and periods change. The row of a message carries, besides the columns,
since when it has sat in folders of one role without interruption; no statement reads it.

A day is 86400 seconds, the session's time zone being UTC.
-/

namespace MailVerdict.Model.RetentionSweep

open MailVerdict.Computation

abbrev Uuid := ℕ

abbrev Time := ℕ

def secondsPerDay : ℕ := 86400

/-- The values of `special_use` the sweep tells apart. -/
inductive SpecialUse
  | trash
  | junk
  | other
deriving DecidableEq

/-- `_RETENTION_ROLES`. SOURCE: retention/sweep.py:71-77 -/
inductive Role
  | trash
  | junk
deriving DecidableEq

def Role.use : Role → SpecialUse
  | .trash => .trash
  | .junk => .junk

/-- The row of a folder, and the override of its preferences. -/
structure Folder where
  specialUse : Option SpecialUse
  specialUseOverride : Option SpecialUse

/-- `coalesce(fp.special_use_override, f.special_use)`. -/
def Folder.use (f : Folder) : Option SpecialUse := f.specialUseOverride.or f.specialUse

/-- A row of `messages`, and since when the mail has sat where it sits. -/
structure Message where
  id : Uuid
  accountId : Uuid
  folderId : Uuid
  expungedAt : Option Time
  satSince : Time

/-- SOURCE: database/models.py:1046-1060 -/
structure RetentionEntry where
  messageId : Uuid
  accountId : Uuid
  role : Role
  enteredAt : Time
deriving DecidableEq

abbrev Entries := KeyedTable RetentionEntry.messageId

/-- The statements of a sweep that have run. -/
inductive Phase
  | begun
  | stamped
  | dropped
  | selected (overdue : List Uuid)
deriving DecidableEq

/-- An open sweep: its role, its `now()`, and `retention_entries` as it has made it. -/
structure Sweep where
  role : Role
  startedAt : Time
  phase : Phase
  entries : Entries

structure State where
  now : Time
  nextId : Uuid
  messages : KeyedTable Message.id
  folder : Uuid → Folder
  retentionDays : Uuid → Role → Option ℕ
  entries : Entries
  sweep : Option Sweep

inductive Label
  | tick (elapsed : ℕ)
  | deliver (accountId folderId : Uuid)
  | move (id folderId : Uuid)
  | expunge (id : Uuid)
  | resync (id : Uuid)
  | setFolder (folderId : Uuid) (folder : Folder)
  | setRetentionDays (accountId : Uuid) (role : Role) (days : Option ℕ)
  | beginSweep (role : Role)
  | stamp (chosen : List Uuid)
  | drop (chosen : List Uuid)
  | select
  | remove
  | abort

def bookkeepingBatchSize : ℕ := 2000

def expungeBatchSize : ℕ := 200

namespace State

variable (s : State)

def use (folderId : Uuid) : Option SpecialUse := (s.folder folderId).use

/-- A live row of the message, in a folder of the role. -/
def sits (id : Uuid) (r : Role) : Bool :=
  s.messages.rows.any fun m => decide (m.id = id) && m.expungedAt.isNone &&
    decide (s.use m.folderId = some r.use)

/-- The messages to stamp. SOURCE: retention/sweep.py:104-116 -/
def unstamped (w : Sweep) : List Message :=
  s.messages.rows.filter fun m => (s.retentionDays m.accountId w.role).isSome &&
    decide (s.use m.folderId = some w.role.use) && m.expungedAt.isNone &&
    (w.entries.find? m.id).isNone

/-- Stamps a batch of them, whichever the database returns.
SOURCE: retention/sweep.py:101-122 -/
def stamp (w : Sweep) (chosen : List Uuid) : Option State :=
  let stamped := (s.unstamped w).filter fun m => chosen.contains m.id
  if stamped.length = min bookkeepingBatchSize (s.unstamped w).length then
    some { s with
      sweep := some { w with
        phase := .stamped
        entries := w.entries.insertAll
          (stamped.map fun m => ⟨m.id, m.accountId, w.role, w.startedAt⟩) } }
  else none

/-- The entries of the role whose message does not sit in a folder of it.
SOURCE: retention/sweep.py:147-160 -/
def stale (w : Sweep) : List RetentionEntry :=
  w.entries.rows.filter fun e => decide (e.role = w.role) && !s.sits e.messageId w.role

/-- Drops a batch of them. SOURCE: retention/sweep.py:143-165 -/
def drop (w : Sweep) (chosen : List Uuid) : Option State :=
  let dropped := (s.stale w).filter fun e => chosen.contains e.messageId
  if dropped.length = min bookkeepingBatchSize (s.stale w).length then
    some { s with
      sweep := some { w with
        phase := .dropped
        entries := w.entries.filter fun e => decide (e ∉ dropped) } }
  else none

/-- Whether the period of an entry's account has passed since it was stamped. -/
def isOverdue (w : Sweep) (e : RetentionEntry) : Bool :=
  match s.retentionDays e.accountId w.role with
  | some days => decide (e.enteredAt + days * secondsPerDay < w.startedAt)
  | none => false

/-- SOURCE: retention/sweep.py:178-199 -/
def overdue (w : Sweep) : List Uuid :=
  (((w.entries.rows.filter fun e => decide (e.role = w.role) && s.isOverdue w e &&
      s.sits e.messageId w.role).insertionSort fun a b => a.enteredAt ≤ b.enteredAt).take
    expungeBatchSize).map RetentionEntry.messageId

/-- `expunge_bulk` by id alone, the entries' deletion and the commit.
SOURCE: retention/sweep.py:201-207; postimap/actions.py:504-530 -/
def remove (w : Sweep) (ids : List Uuid) : State :=
  { s with
    messages := s.messages.update (fun m => decide (m.id ∈ ids))
      (fun m => { m with expungedAt := some w.startedAt }) (fun _ => rfl)
    entries := w.entries.filter fun e => decide (e.messageId ∉ ids)
    sweep := none }

/-- Since when a mail that sat in one folder has sat with a role, once it is in another. -/
def sitsFrom (before after : Option SpecialUse) (satSince : Time) : Time :=
  if after = before then satSince else s.now

def move (id folderId : Uuid) : State :=
  { s with
    messages := s.messages.update (fun m => decide (m.id = id))
      (fun m => { m with
        folderId := folderId
        satSince := s.sitsFrom (s.use m.folderId) (s.use folderId) m.satSince })
      (fun _ => rfl) }

/-- An override set or cleared, or another `special_use` found. -/
def setFolder (folderId : Uuid) (folder : Folder) : State :=
  { s with
    folder := Function.update s.folder folderId folder
    messages := s.messages.update (fun m => decide (m.folderId = folderId))
      (fun m => { m with satSince := s.sitsFrom (s.use folderId) folder.use m.satSince })
      (fun _ => rfl) }

def deliver (accountId folderId : Uuid) : Option State :=
  if h : s.nextId ∉ s.messages.rows.map Message.id then
    some { s with
      nextId := s.nextId + 1
      messages := s.messages.insert ⟨s.nextId, accountId, folderId, none, s.now⟩ h }
  else none

/-- A UIDVALIDITY resync gives a mail a new row under a new id, where it was. -/
def resync (id : Uuid) : Option State :=
  match s.messages.find? id with
  | none => none
  | some m =>
    if h : s.nextId ∉ (s.messages.erase id).rows.map Message.id then
      some { s with
        nextId := s.nextId + 1
        messages := (s.messages.erase id).insert { m with id := s.nextId } h }
    else none

end State

def step (s : State) : Label → Option State
  | .tick elapsed => some { s with now := s.now + elapsed }
  | .deliver accountId folderId => s.deliver accountId folderId
  | .move id folderId => some (s.move id folderId)
  | .expunge id => some { s with
      messages := s.messages.update (fun m => decide (m.id = id))
        (fun m => { m with expungedAt := some s.now }) (fun _ => rfl) }
  | .resync id => s.resync id
  | .setFolder folderId folder => some (s.setFolder folderId folder)
  | .setRetentionDays accountId role days => some { s with
      retentionDays := Function.update s.retentionDays accountId
        (Function.update (s.retentionDays accountId) role days) }
  | .beginSweep role =>
    match s.sweep with
    | none => some { s with sweep := some ⟨role, s.now, .begun, s.entries⟩ }
    | some _ => none
  | .stamp chosen =>
    match s.sweep with
    | some w => if w.phase = .begun then s.stamp w chosen else none
    | none => none
  | .drop chosen =>
    match s.sweep with
    | some w => if w.phase = .stamped then s.drop w chosen else none
    | none => none
  | .select =>
    match s.sweep with
    | some w =>
      if w.phase = .dropped then
        some { s with sweep := some { w with phase := .selected (s.overdue w) } }
      else none
    | none => none
  | .remove =>
    match s.sweep with
    | some w =>
      match w.phase with
      | .selected ids => some (s.remove w ids)
      | _ => none
    | none => none
  | .abort => s.sweep.map fun _ => { s with sweep := none }

def start : State where
  now := 0
  nextId := 0
  messages := KeyedTable.empty
  folder _ := ⟨none, none⟩
  retentionDays _ _ := none
  entries := KeyedTable.empty
  sweep := none

def system : TransitionSystem State Label where
  init s := s = start
  step := step

end MailVerdict.Model.RetentionSweep
