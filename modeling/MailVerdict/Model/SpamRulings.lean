import MailVerdict.Computation.KeyedTable
import MailVerdict.Computation.TransitionSystem

/-!
# Rulings on a message and the listener that hears its moves

`apply_human_ruling` reads the verdict in force, records the ruling and moves the message,
each in a transaction of its own; any number of calls may be under way. A move that changes
the folder makes an event, and the events are handled in order, at any time later. The
listener compares what an event says with the verdict in force when it is handled, and
records a correction of its own where the two disagree.

This is about one message. The folders of its account do not change; which of several
folders flagged for a role `resolve_special_folder` returns is a choice of the label.
-/

namespace MailVerdict.Model.SpamRulings

open MailVerdict.Computation

abbrev FolderId := ℕ

structure Folder where
  id : FolderId
  /-- `COALESCE(special_use_override, special_use)`. -/
  specialUse : Option String
  /-- The last segment of `imap_name`, in lower case. -/
  name : String
  isDeleted : Bool

inductive VerdictSource
  | ai
  | rule
  | userFeedback
deriving DecidableEq

structure Verdict where
  isSpam : Bool
  source : VerdictSource

/-- An update event whose `changed` has `folder_id`. -/
structure MoveEvent where
  folderId : FolderId
  oldFolderId : FolderId

inductive Phase
  | asked (prior : Option Bool)
  | recorded (prior : Option Bool)
  | ended

/-- A call of `apply_human_ruling`. -/
structure Call where
  isSpam : Bool
  expectedFolderId : Option FolderId
  phase : Phase

structure State where
  folders : KeyedTable Folder.id
  folderId : FolderId
  isExpunged : Bool
  /-- The message's verdicts, oldest first. -/
  verdicts : List Verdict
  calls : List Call
  events : List MoveEvent
  /-- The corrections that the listener has decided on and not yet written. -/
  answering : List Bool
  /-- The verdict in force before any of the calls. -/
  before : Option Bool
  /-- The rulings that were recorded, oldest first. -/
  rulings : List Bool
  /-- The rows that the listener wrote. -/
  answers : List Bool

inductive Label
  | rule (isSpam : Bool) (expectedFolderId : Option FolderId)
  | record (call : ℕ) (succeeds : Bool)
  | move (call : ℕ) (folderId : FolderId)
  | abandon (call : ℕ)
  | deliver
  | answer (isSpam succeeds : Bool)

/-- `_ROLE_NAME_FALLBACKS`, of the two roles a ruling moves to.
SOURCE: database/repository.py:75-80 -/
def roleNameFallbacks : String → List String
  | "junk" => ["junk", "spam", "junk e-mail", "bulk mail"]
  | "inbox" => ["inbox"]
  | _ => []

namespace State

variable (s : State)

/-- SOURCE: database/repository.py:1382-1403 -/
def effectiveSpecialUse (f : FolderId) : Option String := (s.folders.find? f).bind Folder.specialUse

/-- The folders `resolve_special_folder` may return: any that is flagged, else the first by
name and id. SOURCE: database/repository.py:1405-1468 -/
def resolveSpecialFolder (role : String) : List FolderId :=
  let flagged := (s.folders.rows.filter fun f => decide (f.specialUse = some role)).map Folder.id
  if flagged ≠ [] then flagged
  else ((roleNameFallbacks role).findSome? fun name =>
    ((s.folders.rows.filter fun f => !f.isDeleted && decide (f.name = name)).map
      Folder.id).min?).toList

/-- The latest correction or ruling, else the latest verdict.
SOURCE: database/repository.py:1244-1277 -/
def currentVerdict : Option Bool :=
  match (s.verdicts.filter fun v => decide (v.source = .userFeedback)).getLast? with
  | some v => some v.isSpam
  | none => s.verdicts.getLast?.map Verdict.isSpam

/-- What the last ruling that was recorded says; before any, the verdict then in force. -/
def standing : Option Bool := s.rulings.getLast?.or s.before

def setPhase (n : ℕ) (c : Call) (phase : Phase) : State :=
  { s with calls := s.calls.set n { c with phase := phase } }

/-- `_record_feedback`, whose failure is caught. SOURCE: spam/feedback.py:254-280 -/
def record (n : ℕ) (c : Call) (prior : Option Bool) (succeeds : Bool) : State :=
  if succeeds then
    { s.setPhase n c (.recorded prior) with
      verdicts := s.verdicts ++ [⟨c.isSpam, .userFeedback⟩]
      rulings := s.rulings ++ [c.isSpam] }
  else s.setPhase n c (.recorded prior)

/-- The role whose folder a ruling moves to. SOURCE: spam/feedback.py:177-182 -/
def role (c : Call) (prior : Option Bool) : Option String :=
  if c.isSpam then some "junk" else if prior = some true then some "inbox" else none

/-- The folder changes, which makes an event. -/
def moved (target : FolderId) : State :=
  { s with folderId := target, events := s.events ++ [⟨target, s.folderId⟩] }

/-- `move_message`, or `move_messages_from` for a queued action.
SOURCE: spam/feedback.py:184-195; postimap/actions.py:256-294, 465-501 -/
def moveMessage (c : Call) (target : FolderId) : State :=
  match c.expectedFolderId with
  | none => if s.folderId ≠ target then s.moved target else s
  | some expected =>
    if expected ≠ target ∧ s.folderId = expected ∧ s.isExpunged = false then s.moved target
    else s

/-- The move of a call whose ruling was recorded; without a folder for the role the call
fails. -/
def move (n : ℕ) (c : Call) (prior : Option Bool) (target : FolderId) : Option State :=
  match role c prior with
  | none => some (s.setPhase n c .ended)
  | some r =>
    if s.resolveSpecialFolder r = [] then some (s.setPhase n c .ended)
    else if target ∈ s.resolveSpecialFolder r then
      some ((s.moveMessage c target).setPhase n c .ended)
    else none

/-- What the listener answers to an event, if anything.
SOURCE: spam/processor.py:62-105; spam/feedback.py:200-252 -/
def correction (e : MoveEvent) : Option Bool :=
  if s.effectiveSpecialUse e.folderId = some "junk" then
    if s.currentVerdict = some false then some true else none
  else if s.effectiveSpecialUse e.oldFolderId = some "junk" then
    if s.effectiveSpecialUse e.folderId = some "trash" then none
    else if s.currentVerdict = some true then some false
    else none
  else none

def answer (isSpam succeeds : Bool) : State :=
  if succeeds then
    { s with
      answering := s.answering.erase isSpam
      verdicts := s.verdicts ++ [⟨isSpam, .userFeedback⟩]
      answers := s.answers ++ [isSpam] }
  else { s with answering := s.answering.erase isSpam }

end State

def step (s : State) : Label → Option State
  | .rule isSpam expected =>
    some { s with calls := s.calls ++ [⟨isSpam, expected, .asked s.currentVerdict⟩] }
  | .record n succeeds => s.calls[n]?.bind fun c =>
    match c.phase with
    | .asked prior => some (s.record n c prior succeeds)
    | _ => none
  | .move n target => s.calls[n]?.bind fun c =>
    match c.phase with
    | .recorded prior => s.move n c prior target
    | _ => none
  | .abandon n => s.calls[n]?.map fun c => s.setPhase n c .ended
  | .deliver =>
    match s.events with
    | [] => none
    | e :: rest => some
        { s with events := rest, answering := s.answering ++ (s.correction e).toList }
  | .answer isSpam succeeds =>
    if isSpam ∈ s.answering then some (s.answer isSpam succeeds) else none

/-- Any account, any message with any verdicts, and no call yet. -/
def system : TransitionSystem State Label where
  init s := s.calls = [] ∧ s.events = [] ∧ s.answering = [] ∧ s.rulings = [] ∧ s.answers = [] ∧
    s.before = s.currentVerdict
  step := step

end MailVerdict.Model.SpamRulings
