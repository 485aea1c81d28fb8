import Mathlib.Data.List.Sort

/-!
# Refreshing the window of a list

A mail list is the rows loaded from the newest down. A refresh reads the list again from the
newest, as many rows as are loaded and some more up to a limit, and puts what it read over the
rows loaded (`mergeRefreshedWindow`, `ui/src/lib/mail-list-window.ts`).

A row's other fields are the parameter `T`. A time is what its text parses to.
-/

namespace MailVerdict.Model.ListWindow

abbrev Uuid := ℕ

abbrev Time := ℕ

/-- SOURCE: ui/src/lib/mail-list-window.ts:12-15 -/
structure WindowRow (T : Type) where
  id : Uuid
  receivedAt : Option Time
  fields : T
deriving DecidableEq

variable {T : Type}

/-- SOURCE: ui/src/lib/mail-list-window.ts:58-67 -/
def sitsAbove (a b : WindowRow T) : Bool :=
  match a.receivedAt, b.receivedAt with
  | none, none => decide (b.id < a.id)
  | none, some _ => true
  | some _, none => false
  | some x, some y => if x ≠ y then decide (y < x) else decide (b.id < a.id)

structure MergedWindow (T : Type) where
  rows : List (WindowRow T)
  hasMore : Bool
deriving DecidableEq

def ids (rows : List (WindowRow T)) : List Uuid := rows.map WindowRow.id

/-- The loaded rows that stay though the list no longer has them. -/
def preserved (current fresh : List (WindowRow T)) (preserveIds : Option (List Uuid)) :
    List (WindowRow T) :=
  match preserveIds with
  | some kept => current.filter fun row => decide (row.id ∈ kept) && decide (row.id ∉ ids fresh)
  | none => []

/-- The rows read and those preserved, newest first. -/
def effectiveFresh (current fresh : List (WindowRow T)) (preserveIds : Option (List Uuid)) :
    List (WindowRow T) :=
  if (preserved current fresh preserveIds).isEmpty then fresh
  else (fresh ++ preserved current fresh preserveIds).insertionSort fun a b => sitsAbove b a = false

/-- None where a read of no rows that left some out makes it throw.
SOURCE: ui/src/lib/mail-list-window.ts:88-125 -/
def mergeRefreshedWindow (current fresh : List (WindowRow T)) (freshHasMore currentHasMore : Bool)
    (preserveIds : Option (List Uuid)) : Option (MergedWindow T) :=
  match current.getLast? with
  | none => some ⟨fresh, freshHasMore⟩
  | some oldLast =>
    let effective := effectiveFresh current fresh preserveIds
    let freshLast := effective.getLast?
    let reachedOldLast := !freshHasMore || freshLast.any fun last => !sitsAbove last oldLast
    if reachedOldLast then
      let rows := effective.filter fun row => decide (row.id = oldLast.id) || sitsAbove row oldLast
      some ⟨rows, freshHasMore || decide (rows.length < effective.length)⟩
    else
      freshLast.map fun last =>
        let kept := current.filter fun row => decide (row.id ∉ ids effective) && sitsAbove last row
        ⟨effective ++ kept, currentHasMore⟩

end MailVerdict.Model.ListWindow
