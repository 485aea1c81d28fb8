import MailVerdict.Analysis.RestoredRows

/-!
# The flags of a row brought back

A row of the list is shown under every intent on its message. A row brought back starts from the
snapshot of the move that brings it, and only the intents taken since are laid over it; the ones
taken before are in no snapshot, which is the row as the server sent it. What is shown is right
where the earlier ones change no flag, or a later one sets it again (`restored_flags_iff`).
-/

namespace MailVerdict.Analysis.RestoredFlags

open Model.MailActions Model.MailIntents Model.RowProjection
open Analysis.RowOverlay Analysis.RestoredRows

/-! ## Flags -/

inductive Flag
  | seen
  | flagged

def Flag.ofRow (row : Row) : Flag → Bool
  | seen => row.isSeen
  | flagged => row.isFlagged

def Flag.setBy (action : Action) : Flag → Option Bool
  | seen =>
    match action with
    | .markRead => some true
    | .markUnread => some false
    | _ => none
  | flagged =>
    match action with
    | .flag => some true
    | .unflag => some false
    | _ => none

def lastSet (flag : Flag) (is : List MailIntent) : Option Bool :=
  (is.filterMap fun i => flag.setBy i.action).getLast?

theorem ofRow_flagOverride (flag : Flag) (action : Action) (row : Row) :
    flag.ofRow (flagOverride action row) = (flag.setBy action).getD (flag.ofRow row) := by
  cases flag <;> cases action <;> rfl

theorem ofRow_flagAll (flag : Flag) (row : Row) (is : List MailIntent) :
    flag.ofRow (flagAll row is) = (lastSet flag is).getD (flag.ofRow row) := by
  induction is using List.reverseRecOn with
  | nil => rfl
  | append_singleton is i ih =>
    have hlast : lastSet flag (is ++ [i]) = (flag.setBy i.action).or (lastSet flag is) := by
      rw [lastSet, List.filterMap_append, List.getLast?_append]
      cases hset : flag.setBy i.action with
      | none => simp [hset, lastSet]
      | some value => simp [hset]
    have hstep : flagAll row (is ++ [i]) = flagOverride i.action (flagAll row is) :=
      flagAll_append row is [i]
    rw [hlast, hstep, ofRow_flagOverride, ih]
    cases flag.setBy i.action with
    | none => simp
    | some value => simp

theorem ofRow_flagAll_append_iff (flag : Flag) (row : Row) (is js : List MailIntent) :
    flag.ofRow (flagAll row js) = flag.ofRow (flagAll row (is ++ js)) ↔
      ∀ value ∈ lastSet flag is, lastSet flag js = none → value = flag.ofRow row := by
  rw [flagAll_append, ofRow_flagAll, ofRow_flagAll, ofRow_flagAll]
  cases lastSet flag js with
  | some value => simp
  | none =>
    cases lastSet flag is with
    | none => simp
    | some value => simp [eq_comm]

/-! ## Rows brought back -/

section Restored

variable (rowOf : IntentId → IntentMessage → Option Row) (rows : List Row)
variable (intents : List MailIntent) (list : ListProjection)

def scope : Finset Uuid := list.scopeFolderIds.getD ∅

def snapshotOf (k : Uuid) : Option Row :=
  lastSnapshot (usable rowOf rows intents list) (scope list) k (applying intents list)

def before (k : Uuid) : List MailIntent :=
  naming k (untilBrought (usable rowOf rows intents list) (scope list) k (applying intents list))

def since (k : Uuid) : List MailIntent :=
  naming k (afterBrought (usable rowOf rows intents list) (scope list) k (applying intents list))

/-- Every row brought back is shown with the flags that all intents on its message give the
snapshot. -/
def CarriesAll : Prop :=
  ∀ e ∈ broughtIn rowOf rows intents list, ∀ snapshot ∈ snapshotOf rowOf rows intents list e.1,
    ∀ flag : Flag,
      flag.ofRow e.2 = flag.ofRow (flagAll snapshot (naming e.1 (applying intents list)))

/-- Whatever the intents before the move last set a flag of a message brought back to, its snapshot
has it so or an intent since sets it. -/
def NoneMissed : Prop :=
  ∀ e ∈ broughtIn rowOf rows intents list, ∀ snapshot ∈ snapshotOf rowOf rows intents list e.1,
    ∀ flag : Flag, ∀ value ∈ lastSet flag (before rowOf rows intents list e.1),
      lastSet flag (since rowOf rows intents list e.1) = none → value = flag.ofRow snapshot

variable {rowOf} {rows} {intents} {list}

theorem before_append_since (k : Uuid) :
    before rowOf rows intents list k ++ since rowOf rows intents list k =
      naming k (applying intents list) := by
  unfold before since naming
  rw [← List.filter_append, untilBrought, afterBrought, List.rdropWhile_append_rtakeWhile]

theorem eq_of_broughtIn {k : Uuid} {row snapshot : Row}
    (h : (k, row) ∈ broughtIn rowOf rows intents list)
    (hsnapshot : snapshotOf rowOf rows intents list k = some snapshot) :
    row = flagAll snapshot (since rowOf rows intents list k) := by
  obtain ⟨_, sc, hscope, hrow⟩ := mem_restorable.1 (List.mem_filter.1 h).1
  have hsc : scope list = sc := by rw [scope, hscope, Option.getD_some]
  subst hsc
  unfold snapshotOf at hsnapshot
  rw [broughtBack_eq, hsnapshot, Option.bind_some] at hrow
  obtain ⟨_, hrow⟩ := Option.ite_none_left_eq_some.1 hrow
  exact (Option.some.inj hrow).symm

/-- **A row brought back carries every intent on its message** exactly when the intents taken before
the move change no flag that none since sets. -/
theorem restored_flags_iff (rowOf : IntentId → IntentMessage → Option Row) (rows : List Row)
    (intents : List MailIntent) (list : ListProjection) :
    CarriesAll rowOf rows intents list ↔ NoneMissed rowOf rows intents list := by
  refine forall₂_congr fun e he => forall₂_congr fun snapshot hsnapshot => forall_congr' fun flag => ?_
  rw [← before_append_since, eq_of_broughtIn he hsnapshot]
  exact ofRow_flagAll_append_iff flag snapshot _ _

end Restored

/-! ### A star set between the archive and its undo -/

/-- A star set on an archived message, and the undo of the archive after it. -/
def starredThenBack : List MailIntent :=
  [{ id := 1, accountId := 1, action := .flag, messages := [⟨10, some 9, true, false, none, none⟩],
     bulk := false, createdAt := 28, state := .pending, attempts := 0, notBefore := 28,
     generation := 0, updatedAt := 28 },
   { id := 2, accountId := 1, action := .move, targetFolderId := some 5,
     messages := [⟨10, some 9, true, false, none, none⟩], bulk := true, createdAt := 30,
     state := .pending, attempts := 0, notBefore := 30, reverses := some 0, generation := 0,
     updatedAt := 30 }]

def unstarred (i : IntentId) (m : IntentMessage) : Option Row :=
  if i = 2 ∧ m.id = 10 then some ⟨10, 5, none, true, false, some 100, none, none, none⟩ else none

/-- The row comes back without the star. -/
theorem star_missing : ¬∀ (rowOf : IntentId → IntentMessage → Option Row) (rows : List Row)
    (intents : List MailIntent) (list : ListProjection), CarriesAll rowOf rows intents list := by
  intro h
  have hrow : ((10, ⟨10, 5, none, true, false, some 100, none, none, none⟩) : Uuid × Row) ∈
      broughtIn unstarred [] starredThenBack ⟨25, some {5}, false, false⟩ := by
    decide +kernel
  have hsnapshot : snapshotOf unstarred [] starredThenBack ⟨25, some {5}, false, false⟩ 10 =
      some ⟨10, 5, none, true, false, some 100, none, none, none⟩ := by
    decide +kernel
  have hflag := h _ _ _ _ _ hrow _ hsnapshot .flagged
  exact absurd hflag (by decide +kernel)

end MailVerdict.Analysis.RestoredFlags
