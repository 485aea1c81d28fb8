import Mathlib.Data.List.DropRight
import MailVerdict.Analysis.RowOverlay

/-!
# The rows a list shows, brought back or kept

`projectRows` keeps the rows no intent hides and puts those that moves bring back among them,
as far as the window reaches (`projectRows_eq`). A message is brought back by the last move into the
list that has its snapshot, unless a later intent takes it away again, and its row has the flags of
the intents after that move (`broughtBack_eq`).
-/

namespace MailVerdict.Analysis.RestoredRows

open MailVerdict.Computation
open Model.MailActions Model.MailIntents Model.IntentLedger
open Model.RowProjection Analysis.RowOverlay

section Projection

variable (rowOf : IntentId → IntentMessage → Option Row) (rows : List Row)
variable (intents : List MailIntent) (list : ListProjection)

/-! ## The parts of the projection -/

/-- The intents the rows may be missing, in the order they were taken. -/
def applying : List MailIntent :=
  (intents.filter fun i => appliesTo i list.readAt).insertionSort byCreation

def failed : List MailIntent := intents.filter fun i => decide (i.state = .failed)

def kept : List Row :=
  if applying intents list = [] ∧ failed intents = [] then rows
  else rows.filterMap (projectRow (applying intents list) ((failed intents).insertionSort byCreation)
    list (if list.threaded then conversationUnreadDeltas intents list.readAt else []))

def restorable : List (Uuid × Row) :=
  match list.scopeFolderIds with
  | none => []
  | some scope => (applying intents list).foldl (restoreStep rowOf list
      ((kept rows intents list).map Row.id) ((kept rows intents list).map Row.threadId) scope) []

def inWindow (row : Row) : Bool :=
  !(list.hasMore && (kept rows intents list).getLast?.any fun l => !sitsAbove row l)

def broughtIn : List (Uuid × Row) :=
  (restorable rowOf rows intents list).filter fun e => inWindow rows intents list e.2

theorem foldl_insert_filter (p : Row → Bool) (restored out : List Row) :
    restored.foldl (fun shown row => if p row then shown else insertRow row shown) out =
      (restored.filter fun row => !p row).foldl (fun shown row => insertRow row shown) out := by
  induction restored generalizing out with
  | nil => rfl
  | cons row restored ih =>
    rw [List.foldl_cons, List.filter_cons, ih]
    cases hp : p row with
    | true => simp
    | false => simp

theorem projectRows_eq : projectRows rowOf rows intents list =
    ((broughtIn rowOf rows intents list).map Prod.snd).foldl (fun shown row => insertRow row shown)
      (kept rows intents list) := by
  have hbrought : (broughtIn rowOf rows intents list).map Prod.snd =
      ((restorable rowOf rows intents list).map Prod.snd).filter fun row =>
        !(list.hasMore && (kept rows intents list).getLast?.any fun l => !sitsAbove row l) := by
    rw [List.filter_map]
    rfl
  have hall : (restorable rowOf rows intents list).map Prod.snd =
      restoredRows rowOf list ((kept rows intents list).map Row.id)
        ((kept rows intents list).map Row.threadId) (applying intents list) := by
    unfold restorable restoredRows
    cases list.scopeFolderIds <;> rfl
  rw [hbrought, ← foldl_insert_filter, hall]
  unfold projectRows
  dsimp only
  split
  · next hnone =>
    have hkept : kept rows intents list = rows := if_pos hnone
    have happlying : applying intents list = [] := hnone.1
    rw [hkept, happlying]
    unfold restoredRows
    cases list.scopeFolderIds <;> rfl
  · next hsome =>
    have hkept : kept rows intents list = rows.filterMap (projectRow (applying intents list)
      ((failed intents).insertionSort byCreation) list
        (if list.threaded then conversationUnreadDeltas intents list.readAt else [])) := if_neg hsome
    rw [hkept]
    rfl

theorem mem_projectRows {row : Row} : row ∈ projectRows rowOf rows intents list ↔
    row ∈ kept rows intents list ∨ ∃ k, (k, row) ∈ broughtIn rowOf rows intents list := by
  rw [projectRows_eq, mem_foldl_insertRow, List.mem_map, or_comm]
  simp only [Prod.exists, exists_eq_right]

end Projection

/-! ## What brings a message back -/

section Message

variable (rowOf : IntentId → IntentMessage → Option Row) (scope : Finset Uuid) (k : Uuid)

def lastSnapshot (is : List MailIntent) : Option Row :=
  (is.filterMap fun i => broughtRow rowOf scope i k).getLast?

def afterBrought (is : List MailIntent) : List MailIntent :=
  is.rtakeWhile fun i => (broughtRow rowOf scope i k).isNone

def untilBrought (is : List MailIntent) : List MailIntent :=
  is.rdropWhile fun i => (broughtRow rowOf scope i k).isNone

def takesAway (row : Row) (i : MailIntent) : Bool :=
  decide (k ∈ names i) && (movesInto scope i).isNone && hidesRow i row

def naming (is : List MailIntent) : List MailIntent := is.filter fun i => decide (k ∈ names i)

variable {rowOf} {scope} {k}

theorem flagOverride_movesInto {i : MailIntent} {target : Uuid} (h : movesInto scope i = some target)
    (row : Row) : flagOverride i.action row = row := by
  have hmove : i.action = .move := by
    unfold movesInto at h
    split at h
    · next hmove _ => exact hmove
    · cases h
  rw [hmove]
  rfl

theorem flagAll_folderId (row : Row) (is : List MailIntent) :
    (flagAll row is).folderId = row.folderId := flagAll_keeps flagOverride_folderId row is

theorem flagAll_append (row : Row) (is js : List MailIntent) :
    flagAll row (is ++ js) = flagAll (flagAll row is) js :=
  List.foldl_append

theorem naming_concat (is : List MailIntent) (i : MailIntent) :
    naming k (is ++ [i]) = if k ∈ names i then naming k is ++ [i] else naming k is := by
  rw [naming, List.filter_append, List.filter_cons]
  by_cases hnamed : k ∈ names i
  · rw [if_pos hnamed, if_pos (decide_eq_true hnamed)]
    rfl
  · rw [if_neg hnamed, if_neg (fun h => hnamed (of_decide_eq_true h)), List.filter_nil,
      List.append_nil]
    rfl

theorem restoreRow_flagAll {i : MailIntent} (hnot : broughtRow rowOf scope i k = none) (row : Row)
    (is : List MailIntent) :
    restoreRow rowOf scope k (some (flagAll row (naming k is))) i =
      if takesAway scope k row i then none else some (flagAll row (naming k (is ++ [i]))) := by
  have hhides : hidesRow i (flagAll row (naming k is)) = hidesRow i row :=
    hidesRow_congr (flagAll_folderId _ _)
  have hstep : flagAll row (naming k is ++ [i]) =
      flagOverride i.action (flagAll row (naming k is)) := flagAll_append row _ [i]
  rw [naming_concat]
  by_cases hnamed : k ∈ names i
  · rw [if_pos hnamed, hstep]
    unfold restoreRow takesAway
    cases hmove : movesInto scope i with
    | some target =>
      rw [flagOverride_movesInto hmove]
      simp [hnot]
    | none => simp [hnamed, hhides]
  · rw [if_neg hnamed, restoreRow_of_not_named hnamed]
    simp only [takesAway, hnamed, decide_false, Bool.false_and, Bool.false_eq_true, if_false]

section Concat

variable {i : MailIntent} (is : List MailIntent)

theorem lastSnapshot_concat : lastSnapshot rowOf scope k (is ++ [i]) =
    (broughtRow rowOf scope i k).or (lastSnapshot rowOf scope k is) := by
  rw [lastSnapshot, List.filterMap_append, List.getLast?_append]
  cases hrow : broughtRow rowOf scope i k with
  | none => simp [hrow, lastSnapshot]
  | some row => simp [hrow]

theorem afterBrought_concat : afterBrought rowOf scope k (is ++ [i]) =
    if (broughtRow rowOf scope i k).isNone then afterBrought rowOf scope k is ++ [i] else [] :=
  List.rtakeWhile_concat _ _ _

end Concat

/-- **A message is brought back from its last snapshot**, with the flags of the intents since,
unless one of them takes it away. -/
theorem broughtBack_eq (is : List MailIntent) : is.foldl (restoreRow rowOf scope k) none =
    (lastSnapshot rowOf scope k is).bind fun snapshot =>
      if (afterBrought rowOf scope k is).any (takesAway scope k snapshot) then none
      else some (flagAll snapshot (naming k (afterBrought rowOf scope k is))) := by
  induction is using List.reverseRecOn with
  | nil => rfl
  | append_singleton is i ih =>
    rw [List.foldl_concat, ih, lastSnapshot_concat, afterBrought_concat]
    cases hrow : broughtRow rowOf scope i k with
    | some row =>
      have hmove : (movesInto scope i).isSome = true := by
        by_contra hnone
        rw [Option.not_isSome_iff_eq_none] at hnone
        rw [broughtRow_of_stays hnone] at hrow
        cases hrow
      obtain ⟨target, htarget⟩ := Option.isSome_iff_exists.1 hmove
      simp [restoreRow, htarget, hrow, naming, flagAll]
    | none =>
      rw [Option.none_or, Option.isNone_none, if_pos rfl]
      cases lastSnapshot rowOf scope k is with
      | none => rw [Option.bind_none, Option.bind_none, restoreRow_none, hrow]
      | some snapshot =>
        rw [Option.bind_some, Option.bind_some, List.any_append, List.any_cons, List.any_nil,
          Bool.or_false]
        by_cases htaken : (afterBrought rowOf scope k is).any (takesAway scope k snapshot) = true
        · rw [if_pos htaken, htaken, Bool.true_or, if_pos rfl, restoreRow_none, hrow]
        · rw [if_neg htaken, eq_false_of_ne_true htaken, Bool.false_or,
            restoreRow_flagAll hrow]

end Message

/-! ## The messages brought back -/

section Restorable

variable (rowOf : IntentId → IntentMessage → Option Row) (list : ListProjection)

/-- The snapshots a list can use: in a list by conversation, those of conversations it has no row
of. -/
def unlessShown (presentThreads : List (Option Uuid)) (i : IntentId) (m : IntentMessage) :
    Option Row :=
  if list.threaded && m.threadId.isSome && presentThreads.any fun t => decide (t = m.threadId) then
    none
  else rowOf i m

def flat : ListProjection := { list with threaded := false }

variable {rowOf} {list} {present : List Uuid} {presentThreads : List (Option Uuid)}

theorem unlessShown_eq (i : IntentId) (m : IntentMessage) :
    unlessShown rowOf list presentThreads i m =
      if list.threaded && m.threadId.isSome && decide (m.threadId ∈ presentThreads) then none
      else rowOf i m := by
  have hmem : (presentThreads.any fun t => decide (t = m.threadId)) =
      decide (m.threadId ∈ presentThreads) := by
    rw [Bool.eq_iff_iff, List.any_eq_true, decide_eq_true_eq]
    simp only [decide_eq_true_eq, exists_eq_right]
  rw [unlessShown, hmem]

theorem bringBack_flat (i : MailIntent) (target : Uuid) (restored : List (Uuid × Row))
    (m : IntentMessage) : bringBack rowOf list present presentThreads i target restored m =
      bringBack (unlessShown rowOf list presentThreads) (flat list) present presentThreads i target
        restored m := by
  rw [bringBack, bringBack, unlessShown_eq]
  unfold flat
  split
  · next hrow => simp [hrow]
  · next row hrow =>
    simp only [hrow]
    by_cases hshown : (list.threaded && m.threadId.isSome && decide (m.threadId ∈ presentThreads)) = true
    · simp only [hshown, if_true, ite_self]
    · simp [hshown]

theorem restoreStep_flat (scope : Finset Uuid) (restored : List (Uuid × Row)) (i : MailIntent) :
    restoreStep rowOf list present presentThreads scope restored i =
      restoreStep (unlessShown rowOf list presentThreads) (flat list) present presentThreads scope
        restored i := by
  unfold restoreStep
  cases movesInto scope i with
  | none => rfl
  | some target =>
    dsimp only
    congr 1
    funext restored m
    exact bringBack_flat i target restored m

end Restorable

section Entries

variable (rowOf : IntentId → IntentMessage → Option Row) (rows : List Row)
variable (intents : List MailIntent) (list : ListProjection)

def usable : IntentId → IntentMessage → Option Row :=
  unlessShown rowOf list ((kept rows intents list).map Row.threadId)

variable {rowOf} {rows} {intents} {list}

theorem restorable_eq {scope : Finset Uuid} (hscope : list.scopeFolderIds = some scope) :
    restorable rowOf rows intents list = (applying intents list).foldl
      (restoreStep (usable rowOf rows intents list) (flat list)
        ((kept rows intents list).map Row.id) ((kept rows intents list).map Row.threadId) scope) [] := by
  unfold restorable
  rw [hscope]
  dsimp only
  congr 1
  funext restored i
  exact restoreStep_flat scope restored i

theorem tidy_restorable :
    Tidy ((kept rows intents list).map Row.id) (restorable rowOf rows intents list) := by
  unfold restorable
  split
  · exact ⟨List.nodup_nil, fun _ he => absurd he List.not_mem_nil⟩
  · exact tidy_restored _

theorem mem_restorable {k : Uuid} {row : Row} : (k, row) ∈ restorable rowOf rows intents list ↔
    k ∉ (kept rows intents list).map Row.id ∧ ∃ scope, list.scopeFolderIds = some scope ∧
      (applying intents list).foldl (restoreRow (usable rowOf rows intents list) scope k) none =
        some row := by
  cases hscope : list.scopeFolderIds with
  | none => simp [restorable, hscope]
  | some scope =>
    have htidy : Tidy _ (restorable rowOf rows intents list) := tidy_restorable
    simp only [Option.some.injEq, exists_eq_left']
    by_cases hk : k ∈ (kept rows intents list).map Row.id
    · simp only [hk, not_true_eq_false, false_and, iff_false]
      exact fun hmem => htidy.absent _ hmem hk
    · have hlookup : (restorable rowOf rows intents list).lookup k =
          (applying intents list).foldl (restoreRow (usable rowOf rows intents list) scope k) none := by
        rw [restorable_eq hscope]
        exact lookup_restored rfl hk (applying intents list) []
      rw [← lookup_eq_some_iff_mem htidy.nodup, hlookup]
      simp only [hk, not_false_eq_true, true_and]

end Entries

end MailVerdict.Analysis.RestoredRows
