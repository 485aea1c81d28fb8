import Mathlib.Data.Prod.Lex
import Mathlib.Order.WithBot
import MailVerdict.Computation.AssocLists
import MailVerdict.Model.RowProjection

/-!
# What the projection makes of one message

`projectRows` treats each message for itself. A row of the list is hidden if some intent that
reaches it hides it, and else has the flags of the intents naming it overlaid
(`projectRow_bare`); the entry of a message among the rows brought back is what each intent
makes of it in turn (`lookup_restoredRows`). Rows are compared without their marks (`bare`) and
sorted by `listKey`.
-/

namespace MailVerdict.Analysis.RowOverlay

open MailVerdict.Computation
open Model.MailActions Model.MailIntents Model.IntentLedger
open Model.RowProjection

variable {row : Row} {i : MailIntent} {restored : List (Uuid × Row)} {k : Uuid}

def bare (row : Row) : Row :=
  { row with unreadInThread := none, pendingSince := none, failedIntent := none }

@[simp] theorem bare_id (row : Row) : (bare row).id = row.id := rfl

/-! ## The order of a list -/

/-- What a list is sorted by; a message without a time sits above all others. -/
def listKey (row : Row) : WithTop ℕ ×ₗ ℕ := toLex (row.receivedAt, row.id)

theorem sitsAbove_iff (a b : Row) : sitsAbove a b = true ↔ listKey b < listKey a := by
  unfold sitsAbove listKey
  rw [Prod.Lex.toLex_lt_toLex]
  cases ha : a.receivedAt with
  | none =>
    cases hb : b.receivedAt with
    | none => simp [WithTop.none_eq_top]
    | some y => simp [WithTop.none_eq_top, WithTop.some_eq_coe]
  | some x =>
    cases hb : b.receivedAt with
    | none => simp [WithTop.none_eq_top, WithTop.some_eq_coe]
    | some y =>
      simp only [WithTop.some_eq_coe, WithTop.coe_lt_coe, WithTop.coe_inj]
      by_cases hxy : x = y
      · simp [hxy]
      · simp [hxy, Ne.symm hxy]

def Sorted (rows : List Row) : Prop := rows.Pairwise fun a b => listKey b < listKey a

theorem id_eq_of_listKey {a b : Row} (h : listKey a = listKey b) : a.id = b.id :=
  congrArg (fun x => (ofLex x).2) h

theorem mem_insertRow {x : Row} {rows : List Row} :
    x ∈ insertRow row rows ↔ x = row ∨ x ∈ rows := by
  induction rows with
  | nil => simp [insertRow]
  | cons existing rest ih =>
    rw [insertRow]
    split
    · simp
    · rw [List.mem_cons, ih, List.mem_cons]
      tauto

theorem sorted_insertRow {rows : List Row} (h : Sorted rows)
    (hnew : ∀ x ∈ rows, x.id ≠ row.id) : Sorted (insertRow row rows) := by
  induction rows with
  | nil => exact List.pairwise_singleton _ _
  | cons existing rest ih =>
    obtain ⟨hbelow, hrest⟩ := List.pairwise_cons.1 h
    rw [insertRow]
    split
    · next habove =>
      have hlt : listKey existing < listKey row := (sitsAbove_iff _ _).1 habove
      refine List.pairwise_cons.2 ⟨fun x hx => ?_, h⟩
      obtain rfl | hx := List.mem_cons.1 hx
      · exact hlt
      · exact (hbelow x hx).trans hlt
    · next hnot =>
      have hle : listKey row ≤ listKey existing := by
        rw [sitsAbove_iff, not_lt] at hnot
        exact hnot
      have hlt : listKey row < listKey existing := by
        refine lt_of_le_of_ne hle fun heq => ?_
        exact hnew existing List.mem_cons_self (id_eq_of_listKey heq).symm
      refine List.pairwise_cons.2 ⟨fun x hx => ?_, ih hrest fun x hx =>
        hnew x (List.mem_cons_of_mem _ hx)⟩
      obtain rfl | hx := mem_insertRow.1 hx
      · exact hlt
      · exact hbelow x hx

theorem mem_foldl_insertRow {x : Row} (restored out : List Row) :
    x ∈ restored.foldl (fun shown row => insertRow row shown) out ↔ x ∈ restored ∨ x ∈ out := by
  induction restored generalizing out with
  | nil => simp
  | cons row restored ih =>
    rw [List.foldl_cons, ih, mem_insertRow, List.mem_cons]
    tauto

theorem sorted_foldl_insertRow {restored out : List Row} (hout : Sorted out)
    (hnodup : (restored.map Row.id).Nodup)
    (hnew : ∀ row ∈ restored, ∀ x ∈ out, x.id ≠ row.id) :
    Sorted (restored.foldl (fun shown row => insertRow row shown) out) := by
  induction restored generalizing out with
  | nil => exact hout
  | cons row restored ih =>
    obtain ⟨hfresh, hrest⟩ := List.nodup_cons.1 hnodup
    refine ih (sorted_insertRow hout (hnew row List.mem_cons_self)) hrest fun r hr x hx => ?_
    obtain rfl | hx := mem_insertRow.1 hx
    · exact fun hid => hfresh (List.mem_map.2 ⟨r, hr, hid.symm⟩)
    · exact hnew r (List.mem_cons_of_mem _ hr) x hx

/-! ## A row of the list -/

section Row

abbrev names (i : MailIntent) : List Uuid := i.messages.map IntentMessage.id

/-- What an intent makes of a row that shows; none where it hides it. -/
def keepRow (i : MailIntent) (row : Row) : Option Row :=
  if (row.id ∈ names i ∨ expandsTo i row = true) ∧ hidesRow i row = true then none
  else some (if row.id ∈ names i then flagOverride i.action row else row)

def keepAll (row : Option Row) (is : List MailIntent) : Option Row :=
  is.foldl (fun o i => o.bind (keepRow i)) row

def flagAll (row : Row) (is : List MailIntent) : Row :=
  is.foldl (fun row i => flagOverride i.action row) row

@[simp] theorem flagOverride_id (action : Action) (row : Row) :
    (flagOverride action row).id = row.id := by
  unfold flagOverride
  split <;> rfl

@[simp] theorem flagOverride_folderId (action : Action) (row : Row) :
    (flagOverride action row).folderId = row.folderId := by
  unfold flagOverride
  split <;> rfl

@[simp] theorem flagOverride_threadId (action : Action) (row : Row) :
    (flagOverride action row).threadId = row.threadId := by
  unfold flagOverride
  split <;> rfl

@[simp] theorem flagOverride_receivedAt (action : Action) (row : Row) :
    (flagOverride action row).receivedAt = row.receivedAt := by
  unfold flagOverride
  split <;> rfl

theorem bare_flagOverride (action : Action) (row : Row) :
    bare (flagOverride action row) = flagOverride action (bare row) := by
  unfold flagOverride
  split <;> rfl

theorem hidesRow_congr {a b : Row} (h : a.folderId = b.folderId) :
    hidesRow i a = hidesRow i b := by
  unfold hidesRow
  rw [h]

theorem expandsTo_congr {a b : Row} (hfolder : a.folderId = b.folderId)
    (hthread : a.threadId = b.threadId) : expandsTo i a = expandsTo i b := by
  unfold expandsTo
  rw [hfolder, hthread]

theorem markPending_eq (i : MailIntent) (row : Row) :
    (markPending i row).folderId = row.folderId ∧ bare (markPending i row) = bare row := by
  unfold markPending
  split
  · split
    · exact ⟨rfl, rfl⟩
    · exact ⟨rfl, rfl⟩
  · exact ⟨rfl, rfl⟩

theorem overlay_bare (row : Row) (is : List MailIntent) :
    (overlay row is).map bare =
      if is.any fun i => hidesRow i row then none else some (flagAll (bare row) is) := by
  induction is generalizing row with
  | nil => rfl
  | cons i is ih =>
    rw [overlay, List.any_cons]
    by_cases hhides : hidesRow i row = true
    · simp [hhides]
    · rw [if_neg hhides, eq_false_of_ne_true hhides, Bool.false_or]
      have hnext : ∀ next : Row, next.folderId = row.folderId →
          bare next = flagOverride i.action (bare row) →
          (overlay next is).map bare = if (is.any fun i => hidesRow i row) = true then none
            else some (flagAll (bare row) (i :: is)) := fun next hfolder hbare => by
        have hsame : (is.any fun i => hidesRow i next) = is.any fun i => hidesRow i row := by
          simp only [hidesRow_congr hfolder]
        rw [ih, hsame, hbare]
        rfl
      split
      · obtain ⟨hfolder, hbare⟩ := markPending_eq i (flagOverride i.action row)
        refine hnext _ (hfolder.trans (flagOverride_folderId _ _)) ?_
        rw [hbare, bare_flagOverride]
      · exact hnext _ (flagOverride_folderId _ _) (bare_flagOverride _ _)

theorem overlay_folderId {next : Row} {is : List MailIntent} (h : overlay row is = some next) :
    next.folderId = row.folderId := by
  induction is generalizing row with
  | nil =>
    cases h
    rfl
  | cons i is ih =>
    rw [overlay] at h
    split at h
    · cases h
    · dsimp only at h
      split at h
      · rw [ih h, (markPending_eq _ _).1, flagOverride_folderId]
      · rw [ih h, flagOverride_folderId]

theorem keepAll_none (is : List MailIntent) : keepAll none is = none := by
  induction is with
  | nil => rfl
  | cons i is ih => exact ih

theorem keepAll_some (row : Row) (is : List MailIntent) :
    keepAll (some row) is =
      if is.any fun i => decide (row.id ∈ names i ∨ expandsTo i row = true) && hidesRow i row then none
      else some (flagAll row (is.filter fun i => decide (row.id ∈ names i))) := by
  induction is generalizing row with
  | nil => rfl
  | cons i is ih =>
    rw [keepAll, List.foldl_cons, Option.bind_some, List.any_cons, keepRow]
    by_cases hgone : (row.id ∈ names i ∨ expandsTo i row = true) ∧ hidesRow i row = true
    · have hfirst : (decide (row.id ∈ names i ∨ expandsTo i row = true) && hidesRow i row) = true := by
        rw [Bool.and_eq_true, decide_eq_true_eq]
        exact hgone
      rw [if_pos hgone, hfirst, Bool.true_or, if_pos rfl]
      exact keepAll_none is
    · have hfirst : (decide (row.id ∈ names i ∨ expandsTo i row = true) && hidesRow i row) = false := by
        rw [← Bool.not_eq_true, Bool.and_eq_true, decide_eq_true_eq]
        exact hgone
      rw [if_neg hgone, hfirst, Bool.false_or, List.filter_cons]
      by_cases hnamed : row.id ∈ names i
      · have hrest := ih (flagOverride i.action row)
        have hhides : ∀ j, hidesRow j (flagOverride i.action row) = hidesRow j row := fun j =>
          hidesRow_congr (flagOverride_folderId _ _)
        have hexpands : ∀ j, expandsTo j (flagOverride i.action row) = expandsTo j row := fun j =>
          expandsTo_congr (flagOverride_folderId _ _) (flagOverride_threadId _ _)
        simp only [flagOverride_id, hhides, hexpands] at hrest
        have hfilter : decide (row.id ∈ names i) = true := decide_eq_true hnamed
        rw [if_pos hnamed, hfilter]
        exact hrest
      · have hfilter : decide (row.id ∈ names i) = false := decide_eq_false hnamed
        rw [if_neg hnamed, hfilter]
        exact ih row

theorem flagAll_keeps {B : Type} {field : Row → B}
    (h : ∀ action row, field (flagOverride action row) = field row) (row : Row)
    (is : List MailIntent) : field (flagAll row is) = field row := by
  induction is generalizing row with
  | nil => rfl
  | cons i is ih => exact (ih _).trans (h i.action row)

theorem flagAll_id (row : Row) (is : List MailIntent) : (flagAll row is).id = row.id :=
  flagAll_keeps flagOverride_id row is

theorem flagAll_listKey (row : Row) (is : List MailIntent) :
    listKey (flagAll row is) = listKey row :=
  flagAll_keeps (fun action row => by rw [listKey, listKey, flagOverride_id, flagOverride_receivedAt])
    row is

theorem flagOverride_twice (action : Action) (row : Row) :
    flagOverride action (flagOverride action row) = flagOverride action row := by
  cases action <;> rfl

theorem flagAll_byMessage (row : Row) (is : List MailIntent) (id : Uuid) :
    flagAll row (byMessage is id) = flagAll row (is.filter fun i => decide (id ∈ names i)) := by
  induction is generalizing row with
  | nil => rfl
  | cons i is ih =>
    have hrepeat : ∀ (l : List IntentMessage) (row : Row),
        flagAll row (l.map fun _ => i) = if l = [] then row else flagOverride i.action row := by
      intro l
      induction l with
      | nil => exact fun _ => rfl
      | cons m l ihl =>
        intro row
        have hstep : flagAll row ((m :: l).map fun _ => i) =
            flagAll (flagOverride i.action row) (l.map fun _ => i) := rfl
        rw [hstep, ihl, flagOverride_twice, ite_self, if_neg (List.cons_ne_nil _ _)]
    have hsplit : flagAll row (byMessage (i :: is) id) = flagAll
        (flagAll row ((i.messages.filter fun m => decide (m.id = id)).map fun _ => i))
        (byMessage is id) := by
      rw [byMessage, List.flatMap_cons, flagAll, List.foldl_append]
      rfl
    rw [hsplit, hrepeat, List.filter_cons]
    by_cases hnamed : id ∈ names i
    · have hsome : (i.messages.filter fun m => decide (m.id = id)) ≠ [] := by
        obtain ⟨m, hm, hid⟩ := List.mem_map.1 hnamed
        exact List.ne_nil_of_mem (List.mem_filter.2 ⟨hm, decide_eq_true hid⟩)
      rw [if_neg hsome, if_pos (decide_eq_true hnamed), ih]
      rfl
    · have hnone : (i.messages.filter fun m => decide (m.id = id)) = [] := by
        rw [List.filter_eq_nil_iff]
        intro m hm hid
        exact hnamed (List.mem_map.2 ⟨m, hm, of_decide_eq_true hid⟩)
      rw [if_pos hnone, if_neg (by simpa using hnamed), ih]

theorem any_byMessage (is : List MailIntent) (id : Uuid) (p : MailIntent → Bool) :
    (byMessage is id).any p = is.any fun i => decide (id ∈ names i) && p i := by
  rw [Bool.eq_iff_iff, List.any_eq_true, List.any_eq_true]
  simp only [byMessage, List.mem_flatMap, List.mem_map, List.mem_filter, decide_eq_true_eq,
    Bool.and_eq_true]
  constructor
  · rintro ⟨_, ⟨i, hi, m, ⟨hm, hid⟩, rfl⟩, hp⟩
    exact ⟨i, hi, ⟨m, hm, hid⟩, hp⟩
  · rintro ⟨i, hi, ⟨m, hm, hid⟩, hp⟩
    exact ⟨i, ⟨i, hi, m, ⟨hm, hid⟩, rfl⟩, hp⟩

theorem bare_withFailure (failed : List MailIntent) (id : Uuid) (row : Row) :
    bare (withFailure failed id row) = bare row := by
  unfold withFailure
  split <;> rfl

theorem bare_withUnread (list : ListProjection) (deltas : List (Uuid × Uuid × ℤ)) (row : Row) :
    bare (withUnread list deltas row) = bare row := by
  unfold withUnread
  split
  · rfl
  · dsimp only
    repeat' split
    all_goals rfl

/-- **A row of the list shows what each applying intent leaves of it in turn.** -/
theorem projectRow_bare (applying failed : List MailIntent) (list : ListProjection)
    (deltas : List (Uuid × Uuid × ℤ)) (row : Row) :
    (projectRow applying failed list deltas row).map bare = keepAll (some (bare row)) applying := by
  have hoverlay := overlay_bare row (byMessage applying row.id)
  rw [any_byMessage, flagAll_byMessage] at hoverlay
  rw [keepAll_some]
  have hhides : ∀ i, hidesRow i (bare row) = hidesRow i row := fun i => hidesRow_congr rfl
  have hexpands : ∀ i, expandsTo i (bare row) = expandsTo i row := fun i => expandsTo_congr rfl rfl
  simp only [hhides, hexpands, bare_id]
  -- hidden by an intent that names it, or else by one that stands for its conversation
  have hsplit : (applying.any fun i =>
      decide (row.id ∈ names i ∨ expandsTo i row = true) && hidesRow i row) =
      ((applying.any fun i => decide (row.id ∈ names i) && hidesRow i row) ||
        (byConversation applying row).any fun i => hidesRow i row) := by
    rw [Bool.eq_iff_iff, Bool.or_eq_true, List.any_eq_true, List.any_eq_true, List.any_eq_true]
    simp only [byConversation, List.mem_filter, Bool.and_eq_true, decide_eq_true_eq]
    constructor
    · rintro ⟨i, hi, hnamed | hexpand, hhide⟩
      · exact Or.inl ⟨i, hi, hnamed, hhide⟩
      · exact Or.inr ⟨i, ⟨hi, hexpand⟩, hhide⟩
    · rintro (⟨i, hi, hnamed, hhide⟩ | ⟨i, ⟨hi, hexpand⟩, hhide⟩)
      · exact ⟨i, hi, Or.inl hnamed, hhide⟩
      · exact ⟨i, hi, Or.inr hexpand, hhide⟩
  rw [hsplit]
  unfold projectRow
  cases hnext : overlay row (byMessage applying row.id) with
  | none =>
    rw [hnext, Option.map_none] at hoverlay
    split at hoverlay
    · next hnamed => rw [hnamed, Bool.true_or, if_pos rfl, Option.map_none]
    · cases hoverlay
  | some next =>
    rw [hnext, Option.map_some] at hoverlay
    split at hoverlay
    · cases hoverlay
    · next hnamed =>
      have hfolder := overlay_folderId hnext
      have hsame : ((byConversation applying row).any fun i => hidesRow i next) =
          (byConversation applying row).any fun i => hidesRow i row := by
        simp only [hidesRow_congr hfolder]
      rw [eq_false_of_ne_true hnamed, Bool.false_or]
      dsimp only
      rw [hsame]
      split
      · rfl
      · rw [Option.map_some, bare_withUnread, bare_withFailure]
        exact hoverlay

theorem bare_of_projectRow {applying failed : List MailIntent} {list : ListProjection}
    {deltas : List (Uuid × Uuid × ℤ)} {next : Row}
    (h : projectRow applying failed list deltas row = some next) :
    ∃ is, bare next = flagAll (bare row) is := by
  have hbare := projectRow_bare applying failed list deltas row
  rw [h, Option.map_some, keepAll_some] at hbare
  obtain ⟨-, hflags⟩ := Option.ite_none_left_eq_some.1 hbare.symm
  exact ⟨_, (Option.some.inj hflags).symm⟩

end Row

/-! ## The rows brought back -/

section Restored

theorem lookup_map_set (restored : List (Uuid × Row)) (id : Uuid) (row : Row) (k : Uuid) :
    (restored.map fun e => if e.1 = id then (id, row) else e).lookup k =
      if k = id then (restored.lookup k).map fun _ => row else restored.lookup k := by
  induction restored with
  | nil => simp
  | cons e rest ih =>
    obtain ⟨x, held⟩ := e
    rw [List.map_cons]
    by_cases hx : x = id
    · subst hx
      rw [if_pos rfl]
      by_cases hk : k = x
      · subst hk
        rw [List.lookup_cons_self, List.lookup_cons_self, if_pos rfl, Option.map_some]
      · rw [lookup_cons_ne hk, lookup_cons_ne hk, ih]
    · rw [if_neg hx]
      by_cases hk : k = x
      · subst hk
        rw [List.lookup_cons_self, List.lookup_cons_self, if_neg hx]
      · rw [lookup_cons_ne hk, lookup_cons_ne hk, ih]

theorem lookup_setRow (restored : List (Uuid × Row)) (id : Uuid) (row : Row) (k : Uuid) :
    (setRow restored id row).lookup k = if k = id then some row else restored.lookup k := by
  unfold setRow
  split
  · next hany =>
    rw [lookup_map_set]
    split
    · next hk =>
      obtain ⟨e, he, hid⟩ := List.any_eq_true.1 hany
      have hsome : (restored.lookup k).isSome = true := by
        rw [List.lookup_isSome_iff]
        exact ⟨e, he, by rw [hk, of_decide_eq_true hid]; exact beq_self_eq_true id⟩
      obtain ⟨held, hheld⟩ := Option.isSome_iff_exists.1 hsome
      rw [hheld, Option.map_some]
    · rfl
  · next hnone =>
    rw [List.lookup_append]
    by_cases hk : k = id
    · subst hk
      have hmiss : restored.lookup k = none := by
        rw [List.lookup_eq_none_iff]
        intro e he
        have hne : e.1 ≠ k := fun h => hnone (List.any_eq_true.2 ⟨e, he, decide_eq_true h⟩)
        exact bne_iff_ne.2 hne.symm
      rw [hmiss, List.lookup_cons_self, if_pos rfl, Option.none_or]
    · rw [lookup_cons_ne hk, if_neg hk, List.lookup_nil, Option.or_none]

theorem lookup_filter_ne (restored : List (Uuid × Row)) (id k : Uuid) :
    (restored.filter fun e => decide (e.1 ≠ id)).lookup k =
      if k = id then none else restored.lookup k := by
  induction restored with
  | nil => simp
  | cons e rest ih =>
    obtain ⟨x, held⟩ := e
    rw [List.filter_cons]
    by_cases hx : x = id
    · subst hx
      rw [if_neg (by simp), ih]
      by_cases hk : k = x
      · rw [if_pos hk, if_pos hk]
      · rw [if_neg hk, if_neg hk, lookup_cons_ne hk]
    · rw [if_pos (by simpa using hx)]
      by_cases hk : k = x
      · subst hk
        rw [List.lookup_cons_self, List.lookup_cons_self, if_neg hx]
      · rw [lookup_cons_ne hk, lookup_cons_ne hk, ih]

theorem nodup_setRow (h : (restored.map Prod.fst).Nodup) (id : Uuid)
    (row : Row) : ((setRow restored id row).map Prod.fst).Nodup := by
  unfold setRow
  split
  · have hkeys : (restored.map fun e => if e.1 = id then (id, row) else e).map Prod.fst =
        restored.map Prod.fst := by
      rw [List.map_map]
      refine List.map_congr_left fun e _ => ?_
      simp only [Function.comp_apply]
      split
      · next he => exact he.symm
      · rfl
    rwa [hkeys]
  · next hnone =>
    rw [List.map_append, List.nodup_append]
    refine ⟨h, List.nodup_singleton _, ?_⟩
    rintro k hk _ hid rfl
    rw [List.map_singleton, List.mem_singleton] at hid
    obtain ⟨e, he, rfl⟩ := List.mem_map.1 hk
    exact hnone (List.any_eq_true.2 ⟨e, he, decide_eq_true hid⟩)

variable (rowOf : IntentId → IntentMessage → Option Row) (scope : Finset Uuid)

/-- The row an intent brings into the list for a message: its last snapshot of it. -/
def broughtRow (i : MailIntent) (k : Uuid) : Option Row :=
  match movesInto scope i with
  | none => none
  | some target =>
    ((i.messages.filter fun m => decide (m.id = k)).filterMap (rowOf i.id)).getLast?.map fun row =>
      { row with folderId := target }

/-- What an intent makes of a message's entry among the rows brought back. -/
def restoreRow (k : Uuid) (held : Option Row) (i : MailIntent) : Option Row :=
  match movesInto scope i with
  | some _ => (broughtRow rowOf scope i k).or held
  | none => held.bind fun row =>
    if k ∈ names i then
      if hidesRow i row then none else some (flagOverride i.action row)
    else some row

variable {rowOf} {scope}
theorem broughtRow_of_stays (h : movesInto scope i = none) : broughtRow rowOf scope i k = none := by
  unfold broughtRow
  rw [h]

theorem broughtRow_of_not_named (h : k ∉ names i) : broughtRow rowOf scope i k = none := by
  unfold broughtRow
  split
  · rfl
  · have hnone : (i.messages.filter fun m => decide (m.id = k)) = [] := by
      rw [List.filter_eq_nil_iff]
      intro m hm hid
      exact h (List.mem_map.2 ⟨m, hm, of_decide_eq_true hid⟩)
    rw [hnone]
    rfl

theorem restoreRow_none (k : Uuid) (i : MailIntent) :
    restoreRow rowOf scope k none i = broughtRow rowOf scope i k := by
  unfold restoreRow
  split
  · exact Option.or_none
  · next hout =>
    rw [broughtRow_of_stays hout]
    rfl

theorem restoreRow_of_not_named (h : k ∉ names i) (held : Option Row) :
    restoreRow rowOf scope k held i = held := by
  unfold restoreRow
  split
  · rw [broughtRow_of_not_named h, Option.none_or]
  · simp only [if_neg h, Option.bind_fun_some]

variable {list : ListProjection} {present : List Uuid} {presentThreads : List (Option Uuid)}

theorem lookup_foldl_bringBack (hflat : list.threaded = false) (hk : k ∉ present)
    (i : MailIntent) (target : Uuid) (messages : List IntentMessage) (restored : List (Uuid × Row)) :
    (messages.foldl (bringBack rowOf list present presentThreads i target) restored).lookup k =
      ((((messages.filter fun m => decide (m.id = k)).filterMap (rowOf i.id)).getLast?.map fun row =>
        { row with folderId := target }).or (restored.lookup k)) := by
  induction messages generalizing restored with
  | nil => rfl
  | cons m messages ih =>
    rw [List.foldl_cons, ih]
    have hround : (bringBack rowOf list present presentThreads i target restored m).lookup k =
        (((if m.id = k then rowOf i.id m else none).map fun row =>
          { row with folderId := target }).or (restored.lookup k)) := by
      unfold bringBack
      cases hrow : rowOf i.id m with
      | none => simp
      | some row =>
        dsimp only
        rw [hflat]
        by_cases hmk : m.id = k
        · subst hmk
          rw [if_neg hk]
          simp [lookup_setRow]
        · rw [if_neg hmk]
          split
          · rfl
          · simp [lookup_setRow, Ne.symm hmk]
    rw [hround, List.filter_cons]
    by_cases hmk : m.id = k
    · rw [if_pos hmk, if_pos (decide_eq_true hmk), List.filterMap_cons]
      cases hrow : rowOf i.id m with
      | none => rfl
      | some row =>
        rw [List.getLast?_cons]
        cases (List.filterMap (rowOf i.id) (messages.filter fun m => decide (m.id = k))).getLast? <;>
          rfl
    · rw [if_neg hmk, if_neg (by simpa using hmk)]
      rfl

/-- One intent's effect on a restored row, if it is on it at all. -/
theorem lookup_foldl_overlay (i : MailIntent) (messages : List IntentMessage)
    (restored : List (Uuid × Row)) (k : Uuid) :
    (messages.foldl (overlayRestored i) restored).lookup k =
      (restored.lookup k).bind fun row =>
        if k ∈ messages.map IntentMessage.id then
          if hidesRow i row then none else some (flagOverride i.action row)
        else some row := by
  induction messages generalizing restored with
  | nil => simp
  | cons m messages ih =>
    have hround : (overlayRestored i restored m).lookup k = (restored.lookup k).bind fun row =>
        if k = m.id then if hidesRow i row then none else some (flagOverride i.action row)
        else some row := by
      unfold overlayRestored
      cases hheld : restored.lookup m.id with
      | none =>
        by_cases hk : k = m.id
        · simp [hk, hheld]
        · simp [hk]
      | some row =>
        dsimp only
        by_cases hk : k = m.id
        · subst hk
          split
          · next hhide =>
            rw [lookup_filter_ne, if_pos rfl, hheld, Option.bind_some, if_pos rfl, if_pos hhide]
          · next hshow =>
            rw [lookup_setRow, if_pos rfl, hheld, Option.bind_some, if_pos rfl, if_neg hshow]
        · simp only [if_neg hk, Option.bind_fun_some]
          split
          · rw [lookup_filter_ne, if_neg hk]
          · rw [lookup_setRow, if_neg hk]
    rw [List.foldl_cons, ih, hround, List.map_cons]
    cases restored.lookup k with
    | none => rfl
    | some row =>
      rw [Option.bind_some, Option.bind_some]
      by_cases hk : k = m.id
      · have hmem : k ∈ m.id :: messages.map IntentMessage.id := by
          rw [hk]
          exact List.mem_cons_self
        simp only [if_pos hk, if_pos hmem]
        split
        · rfl
        · next hshow =>
          have hagain : ¬hidesRow i (flagOverride i.action row) = true := by
            rwa [hidesRow_congr (flagOverride_folderId _ _)]
          rw [Option.bind_some, if_neg hagain, flagOverride_twice, ite_self]
      · have hmem : k ∈ m.id :: messages.map IntentMessage.id ↔
            k ∈ messages.map IntentMessage.id := by
          rw [List.mem_cons]
          exact or_iff_right hk
        simp only [if_neg hk, Option.bind_some, hmem]

theorem lookup_restoreStep (hflat : list.threaded = false) (hk : k ∉ present)
    (restored : List (Uuid × Row)) (i : MailIntent) :
    (restoreStep rowOf list present presentThreads scope restored i).lookup k =
      restoreRow rowOf scope k (restored.lookup k) i := by
  unfold restoreStep restoreRow broughtRow
  cases movesInto scope i with
  | none => exact lookup_foldl_overlay i i.messages restored k
  | some target => exact lookup_foldl_bringBack hflat hk i target i.messages restored

/-- **An entry of the rows brought back is what each intent makes of it in turn.** -/
theorem lookup_restored (hflat : list.threaded = false) (hk : k ∉ present)
    (ordered : List MailIntent) (restored : List (Uuid × Row)) :
    (ordered.foldl (restoreStep rowOf list present presentThreads scope) restored).lookup k =
      ordered.foldl (restoreRow rowOf scope k) (restored.lookup k) := by
  induction ordered generalizing restored with
  | nil => rfl
  | cons i ordered ih => rw [List.foldl_cons, List.foldl_cons, ih, lookup_restoreStep hflat hk]

/-- The rows brought back have an entry each, and none the list has already. -/
structure Tidy (present : List Uuid) (restored : List (Uuid × Row)) : Prop where
  nodup : (restored.map Prod.fst).Nodup
  absent : ∀ e ∈ restored, e.1 ∉ present

theorem Tidy.setRow (h : Tidy present restored) {id : Uuid}
    (hid : id ∉ present) (row : Row) : Tidy present (setRow restored id row) where
  nodup := nodup_setRow h.nodup id row
  absent e he := by
    unfold Model.RowProjection.setRow at he
    split at he
    · obtain ⟨x, hx, rfl⟩ := List.mem_map.1 he
      split
      · exact hid
      · exact h.absent x hx
    · obtain he | he := List.mem_append.1 he
      · exact h.absent e he
      · rw [List.mem_singleton.1 he]
        exact hid

theorem Tidy.bringBack (h : Tidy present restored) (i : MailIntent)
    (target : Uuid) (m : IntentMessage) :
    Tidy present (bringBack rowOf list present presentThreads i target restored m) := by
  unfold Model.RowProjection.bringBack
  split
  · exact h
  · split
    · exact h
    · next hid =>
      split
      · exact h
      · exact h.setRow hid _

theorem Tidy.overlayRestored (h : Tidy present restored)
    (i : MailIntent) (m : IntentMessage) : Tidy present (overlayRestored i restored m) := by
  unfold Model.RowProjection.overlayRestored
  split
  · exact h
  · next row hheld =>
    split
    · have hsub : List.Sublist (restored.filter fun e => decide (e.1 ≠ m.id)) restored :=
        List.filter_sublist
      exact ⟨h.nodup.sublist (hsub.map _), fun e he => h.absent e (hsub.subset he)⟩
    · refine h.setRow (fun hpresent => ?_) _
      have hsome : (restored.lookup m.id).isSome = true := by rw [hheld]; rfl
      obtain ⟨e, he, hid⟩ := List.lookup_isSome_iff.1 hsome
      exact h.absent e he (by rwa [← eq_of_beq hid])

theorem Tidy.restoreStep (h : Tidy present restored) (i : MailIntent) :
    Tidy present (restoreStep rowOf list present presentThreads scope restored i) := by
  unfold Model.RowProjection.restoreStep
  split
  · exact List.foldlRecOn i.messages _ h fun _ hrest m _ => hrest.bringBack i _ m
  · exact List.foldlRecOn i.messages _ h fun _ hrest m _ => hrest.overlayRestored i m

theorem tidy_restored (ordered : List MailIntent) :
    Tidy present (ordered.foldl (restoreStep rowOf list present presentThreads scope) []) :=
  List.foldlRecOn ordered _ ⟨List.nodup_nil, nofun⟩ fun _ hrest i _ => hrest.restoreStep i

end Restored

end MailVerdict.Analysis.RowOverlay
