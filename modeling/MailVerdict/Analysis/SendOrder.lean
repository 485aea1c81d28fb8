import MailVerdict.Computation.LaneScan
import MailVerdict.Model.IntentLedger

/-!
# The order in which intents are sent

The drainer scans the intents in the order they were created and takes the first of each idle
account that may go (`sendable_eq_scanLanes`), where an intent waits behind an earlier one that
names one of its messages. A request that expands conversations acts on more messages than it
names (`actedOn`), and an intent does not wait behind an earlier one for those. Which intent is
sent is a matter of the backoff times; whether one can go out too early is not (`NoHiddenClash`).
-/

namespace MailVerdict.Analysis.SendOrder

open MailVerdict.Computation Computation.KeysetPaging
open Computation.LaneScan Model.MailActions
open Model.MailIntents Model.IntentLedger

/-! ## What the drainer is to send -/

def named (i : MailIntent) : List Uuid := i.messages.map IntentMessage.id

/-- The messages an intent acts on: the ones it names, and those the server expands it to in the
messages its request finds. -/
def actedOn (found : IntentId → Messages) (i : MailIntent) : List Uuid :=
  named i ++ if i.bulk then
    ((bulkMembers i.accountId (found i.id) (bulkRequest i)).getD []).map Prod.fst
  else []

def created (i : MailIntent) : ℕ ×ₗ ℕ := toLex (i.createdAt, i.id)

section Spec

variable (acts : MailIntent → List Uuid) (all : List MailIntent) (now : Time)

/-- No earlier unsettled intent acts on a message of this one. -/
def OvertakesNone (i : MailIntent) : Prop :=
  ∀ j ∈ all, unsettled j = true → created j < created i → ∀ m ∈ acts i, m ∉ acts j

structure MayGo (i : MailIntent) : Prop where
  pending : i.state = .pending
  due : i.notBefore ≤ now
  reversed : ∀ j ∈ all, unsettled j = true → i.reverses ≠ some j.id
  overtakesNone : OvertakesNone acts all i

def Idle (accountId : Uuid) : Prop := ∀ j ∈ all, j.state = .inflight → j.accountId ≠ accountId

/-- One intent at most of each account, of idle accounts only; each may go, and the first that
may of each idle account is there. -/
structure SentInOrder (out : List MailIntent) : Prop where
  oneEach : (out.map MailIntent.accountId).Nodup
  idle : ∀ i ∈ out, Idle all i.accountId
  mayGo : ∀ i ∈ out, i ∈ all ∧ MayGo acts all now i
  first : ∀ i, FirstReady created MailIntent.accountId (MayGo acts all now) all i →
    Idle all i.accountId → i ∈ out

end Spec

/-! ## The scan -/

theorem byCreation_iff (i j : MailIntent) : byCreation i j ↔ created i ≤ created j := by
  unfold byCreation created
  rw [Prod.Lex.toLex_le_toLex]

theorem unsettled_of_pending {i : MailIntent} (h : i.state = .pending) : unsettled i = true := by
  simp [unsettled, h]

variable {intents : KeyedTable MailIntent.id} {now : Time}

theorem inOrder_byCreation (intents : KeyedTable MailIntent.id) :
    InOrder created (intents.rows.insertionSort byCreation) := by
  refine inOrder_insertionSort byCreation_iff ?_
  have hid : intents.rows.map MailIntent.id =
      (intents.rows.map created).map fun k => (ofLex k).2 := by
    rw [List.map_map]
    rfl
  exact List.Nodup.of_map _ (hid ▸ intents.primaryKey)

section Scan

variable {pre l : List MailIntent} {busy claimed : List Uuid} {i : MailIntent}

def ClaimedBy (pre : List MailIntent) (claimed : List Uuid) : Prop :=
  ∀ m, m ∈ claimed ↔ ∃ j ∈ pre, unsettled j = true ∧ m ∈ named j

theorem ClaimedBy.skip (h : ClaimedBy pre claimed) (hi : ¬unsettled i = true) :
    ClaimedBy (pre ++ [i]) claimed := by
  intro m
  rw [h m]
  simp [or_and_right, exists_or, hi]

theorem ClaimedBy.claim (h : ClaimedBy pre claimed) (hi : unsettled i = true) :
    ClaimedBy (pre ++ [i]) (named i ++ claimed) := by
  intro m
  rw [List.mem_append, h m]
  simp [or_and_right, exists_or, hi, or_comm]

theorem ClaimedBy.overtakesNone_iff (h : ClaimedBy pre claimed)
    (horder : InOrder created (pre ++ i :: l)) :
    OvertakesNone named (pre ++ i :: l) i ↔ ¬∃ m ∈ i.messages, m.id ∈ claimed := by
  have hbefore : ∀ j ∈ pre ++ i :: l, created j < created i ↔ j ∈ pre := by
    intro j hj
    obtain ⟨_, hpost, hpre⟩ := List.pairwise_append.1 horder
    constructor
    · intro hlt
      obtain hj | hj := List.mem_append.1 hj
      · exact hj
      obtain rfl | hj := List.mem_cons.1 hj
      · exact absurd hlt (lt_irrefl _)
      · exact absurd hlt ((List.pairwise_cons.1 hpost).1 j hj).asymm
    · exact fun hj => hpre j hj i List.mem_cons_self
  constructor
  · rintro hnone ⟨m, hm, hclaimed⟩
    obtain ⟨j, hj, hun, hnamed⟩ := (h m.id).1 hclaimed
    have hjall := List.mem_append_left (i :: l) hj
    exact hnone j hjall hun ((hbefore j hjall).2 hj) m.id (List.mem_map_of_mem hm) hnamed
  · intro hfree j hj hun hlt m hm hnamed
    obtain ⟨x, hx, rfl⟩ := List.mem_map.1 hm
    exact hfree ⟨x, hx, (h x.id).2 ⟨j, (hbefore j hj).1 hlt, hun, hnamed⟩⟩

theorem blocked_iff {all : List MailIntent}
    (hnone : OvertakesNone named all i ↔ ¬∃ m ∈ i.messages, m.id ∈ claimed) :
    (i.state ≠ .pending ∨ i.accountId ∈ busy ∨ now < i.notBefore ∨
        (∃ j ∈ all, unsettled j = true ∧ i.reverses = some j.id) ∨
        ∃ m ∈ i.messages, m.id ∈ claimed) ↔
      ¬(MayGo named all now i ∧ i.accountId ∉ busy) := by
  rw [iff_not_comm]
  simp only [not_or, not_not, not_lt, not_exists, not_and]
  simp only [not_exists, not_and] at hnone
  constructor
  · rintro ⟨⟨hpending, hdue, hreversed, hover⟩, hfree⟩
    exact ⟨hpending, hfree, hdue, hreversed, hnone.1 hover⟩
  · rintro ⟨hpending, hfree, hdue, hreversed, hover⟩
    exact ⟨⟨hpending, hdue, hreversed, hnone.2 hover⟩, hfree⟩

theorem scanSendable_eq {all : List MailIntent} [DecidablePred (MayGo named all now)]
    (horder : InOrder created (pre ++ l)) (hall : ∀ j, j ∈ pre ++ l ↔ j ∈ all)
    (hclaimed : ClaimedBy pre claimed) :
    scanSendable all now busy claimed l =
      scanLanes (MayGo named all now) MailIntent.accountId busy l := by
  induction l generalizing pre busy claimed with
  | nil => rfl
  | cons i l ih =>
    have happ : pre ++ i :: l = (pre ++ [i]) ++ l := by simp
    have horder' := happ ▸ horder
    have hall' := happ ▸ hall
    unfold scanSendable
    split
    · rename_i hun
      have hnone : OvertakesNone named all i ↔ ¬∃ m ∈ i.messages, m.id ∈ claimed := by
        rw [← hclaimed.overtakesNone_iff horder]
        unfold OvertakesNone
        simp only [hall]
      split
      · rename_i hblocked
        rw [scanLanes_cons_of_neg ((blocked_iff hnone).1 hblocked)]
        exact ih horder' hall' (hclaimed.claim hun)
      · rename_i hfree
        rw [scanLanes_cons_of_pos (not_not.1 fun hnot => hfree ((blocked_iff hnone).2 hnot))]
        exact congrArg (i :: ·) (ih horder' hall' (hclaimed.claim hun))
    · rename_i hsettled
      have hnot : ¬(MayGo named all now i ∧ i.accountId ∉ busy) :=
        fun h => hsettled (unsettled_of_pending h.1.pending)
      rw [scanLanes_cons_of_neg hnot]
      exact ih horder' hall' (hclaimed.skip hsettled)

end Scan

def busyAccounts (all : List MailIntent) : List Uuid :=
  (all.filter fun i => decide (i.state = .inflight)).map MailIntent.accountId

theorem idle_iff {all : List MailIntent} {accountId : Uuid} :
    Idle all accountId ↔ accountId ∉ busyAccounts all := by
  unfold Idle busyAccounts
  simp only [List.mem_map, List.mem_filter, decide_eq_true_eq, not_exists, not_and, and_imp]

theorem sendable_eq_scanLanes [DecidablePred (MayGo named intents.rows now)] :
    sendableIntents intents.rows now =
      scanLanes (MayGo named intents.rows now) MailIntent.accountId (busyAccounts intents.rows)
        (intents.rows.insertionSort byCreation) := by
  have hclaimed : ClaimedBy [] [] := fun m => by simp
  exact scanSendable_eq (inOrder_byCreation intents) (fun j => List.mem_insertionSort byCreation)
    hclaimed

/-! ## Overtaking -/

section Acts

variable {acts acts' : MailIntent → List Uuid} {all : List MailIntent} {i : MailIntent}

theorem MayGo.mono (h : MayGo acts all now i) (hacts : ∀ j, acts' j ⊆ acts j) :
    MayGo acts' all now i := by
  refine ⟨h.pending, h.due, h.reversed, fun j hj hun hlt m hm hm' => ?_⟩
  exact h.overtakesNone j hj hun hlt m (hacts i hm) (hacts j hm')

theorem MayGo.mayGo_iff (h : MayGo acts all now i) :
    MayGo acts' all now i ↔ OvertakesNone acts' all i :=
  ⟨MayGo.overtakesNone, fun hnone => ⟨h.pending, h.due, h.reversed, hnone⟩⟩

end Acts

/-- The first of each idle account that may go by the messages named overtakes none. -/
def FirstOvertakesNone (found : IntentId → Messages) (all : List MailIntent) (now : Time) : Prop :=
  ∀ i, FirstReady created MailIntent.accountId (MayGo named all now) all i →
    Idle all i.accountId → OvertakesNone (actedOn found) all i

/-- The drainer sends in order exactly when the first intent of each idle account that may go by
the messages named overtakes none on the messages acted on. -/
theorem sentInOrder_iff_first (found : IntentId → Messages) (intents : KeyedTable MailIntent.id)
    (now : Time) :
    SentInOrder (actedOn found) intents.rows now (sendableIntents intents.rows now) ↔
      FirstOvertakesNone found intents.rows now := by
  classical
  have horder := inOrder_byCreation intents
  have hrows : ∀ i, i ∈ intents.rows.insertionSort byCreation ↔ i ∈ intents.rows :=
    fun i => List.mem_insertionSort byCreation
  have himp : ∀ i ∈ intents.rows.insertionSort byCreation,
      MayGo (actedOn found) intents.rows now i → MayGo named intents.rows now i :=
    fun i _ h => h.mono fun j => List.subset_append_left (named j) _
  have hexact :=
    scanLanes_exact MailIntent.accountId (busyAccounts intents.rows) horder himp
  constructor
  · intro h i hi hidle
    have hsent : i ∈ sendableIntents intents.rows now := by
      rw [sendable_eq_scanLanes, mem_scanLanes horder]
      exact ⟨(FirstReady.congr hrows).2 hi, idle_iff.1 hidle⟩
    exact (h.mayGo i hsent).2.overtakesNone
  · intro h
    obtain ⟨hmay, hfirst⟩ := hexact.2 fun i hi hfree =>
      hi.isReady.mayGo_iff.2 (h i ((FirstReady.congr hrows).1 hi) (idle_iff.2 hfree))
    rw [sendable_eq_scanLanes]
    refine ⟨nodup_scanLanes, fun i hi => ?_, fun i hi => ⟨?_, hmay i hi⟩, fun i hi hidle => ?_⟩
    · exact idle_iff.2 (lane_of_mem_scanLanes hi)
    · exact (hrows i).1 ((mem_scanLanes horder).1 hi).1.mem
    · exact hfirst i ((FirstReady.congr hrows).2 hi) (idle_iff.1 hidle)

/-! ## Whatever the backoff times -/

/-- An intent that only its backoff and its account's other intents hold back. -/
structure Unhindered (all : List MailIntent) (i : MailIntent) : Prop where
  pending : i.state = .pending
  idle : Idle all i.accountId
  reversed : ∀ j ∈ all, unsettled j = true → i.reverses ≠ some j.id
  clear : OvertakesNone named all i

/-- Intents that clash do so on a message both name: where an unhindered intent shares no named
message with an earlier unsettled one, neither request is expanded to a message of the other. -/
def NoHiddenClash (found : IntentId → Messages) (all : List MailIntent) : Prop :=
  ∀ i ∈ all, Unhindered all i → OvertakesNone (actedOn found) all i

def putOffTo (due : IntentId → Time) (i : MailIntent) : MailIntent :=
  { i with notBefore := due i.id }

theorem putOffTo_id (due : IntentId → Time) (i : MailIntent) : (putOffTo due i).id = i.id := rfl

/-- The intents with other backoff times. -/
def retimed (due : IntentId → Time) (intents : KeyedTable MailIntent.id) :
    KeyedTable MailIntent.id :=
  intents.update (fun _ => true) (putOffTo due) (putOffTo_id due)

section Retimed

variable {due : IntentId → Time} {i : MailIntent}

theorem mem_retimed : i ∈ (retimed due intents).rows ↔ ∃ j ∈ intents.rows, putOffTo due j = i := by
  rw [retimed, KeyedTable.mem_update]
  simp only [if_true]

theorem overtakesNone_retimed {acts : MailIntent → List Uuid}
    (hacts : ∀ j, acts (putOffTo due j) = acts j) :
    OvertakesNone acts (retimed due intents).rows (putOffTo due i) ↔
      OvertakesNone acts intents.rows i := by
  constructor
  · intro h j hj hun hlt m hm
    have hnot := h (putOffTo due j) (mem_retimed.2 ⟨j, hj, rfl⟩) hun hlt m
    rw [hacts, hacts] at hnot
    exact hnot hm
  · rintro h j' hj' hun hlt m hm
    obtain ⟨j, hj, rfl⟩ := mem_retimed.1 hj'
    rw [hacts] at hm ⊢
    exact h j hj hun hlt m hm

theorem unhindered_retimed :
    Unhindered (retimed due intents).rows (putOffTo due i) ↔ Unhindered intents.rows i := by
  constructor
  · rintro ⟨hpending, hidle, hreversed, hclear⟩
    refine ⟨hpending, fun j hj => ?_, fun j hj => ?_, (overtakesNone_retimed fun _ => rfl).1 hclear⟩
    · exact hidle (putOffTo due j) (mem_retimed.2 ⟨j, hj, rfl⟩)
    · exact hreversed (putOffTo due j) (mem_retimed.2 ⟨j, hj, rfl⟩)
  · rintro ⟨hpending, hidle, hreversed, hclear⟩
    refine ⟨hpending, fun j' hj' => ?_, fun j' hj' => ?_,
      (overtakesNone_retimed fun _ => rfl).2 hclear⟩
    · obtain ⟨j, hj, rfl⟩ := mem_retimed.1 hj'
      exact hidle j hj
    · obtain ⟨j, hj, rfl⟩ := mem_retimed.1 hj'
      exact hreversed j hj

end Retimed

/-- Without hidden clashes the drainer sends in order, at whatever moment it is asked. -/
theorem sentInOrder_of_noHiddenClash {found : IntentId → Messages}
    (h : NoHiddenClash found intents.rows) :
    SentInOrder (actedOn found) intents.rows now (sendableIntents intents.rows now) := by
  refine (sentInOrder_iff_first found intents now).2 fun i hi hidle => ?_
  obtain ⟨hpending, -, hreversed, hclear⟩ := hi.isReady
  exact h i hi.mem ⟨hpending, hidle, hreversed, hclear⟩

/-- **The drainer sends in order** where no clash of two intents is hidden in an expanded
conversation; and it does so whatever the backoff times of the intents are exactly then. -/
theorem sendable_in_order (found : IntentId → Messages) (intents : KeyedTable MailIntent.id)
    (now : Time) :
    (NoHiddenClash found intents.rows →
      SentInOrder (actedOn found) intents.rows now (sendableIntents intents.rows now)) ∧
    ((∀ due : IntentId → Time, SentInOrder (actedOn found) (retimed due intents).rows now
        (sendableIntents (retimed due intents).rows now)) ↔
      NoHiddenClash found intents.rows) := by
  refine ⟨sentInOrder_of_noHiddenClash, fun h i hi hfree => ?_, fun h due => ?_⟩
  · -- every other intent is put off, so that this one is the first of its account
    have horder := (sentInOrder_iff_first found _ now).1
      (h fun id => if id = i.id then now else now + 1)
    obtain ⟨hpending, hidle, hreversed, hclear⟩ := unhindered_retimed.2 hfree
    refine (overtakesNone_retimed fun _ => rfl).1 (horder _ ?_ hidle)
    refine ⟨mem_retimed.2 ⟨i, hi, rfl⟩, ⟨hpending, ?_, hreversed, hclear⟩, fun b hb hready _ => ?_⟩
    · simp only [putOffTo, if_true, le_refl]
    · obtain ⟨j, hj, rfl⟩ := mem_retimed.1 hb
      have hdue := hready.due
      simp only [putOffTo] at hdue
      split at hdue
      · rename_i hsame
        rw [intents.eq_of_key_eq hj hi hsame]
      · exact absurd hdue (Nat.not_succ_le_self now)
  · refine sentInOrder_of_noHiddenClash fun i' hi' hfree => ?_
    obtain ⟨i, hi, rfl⟩ := mem_retimed.1 hi'
    exact (overtakesNone_retimed fun _ => rfl).2 (h i hi (unhindered_retimed.1 hfree))

def putOff : MailIntent where
  id := 1
  accountId := 1
  action := .archive
  messages := [⟨10, some 5, false, false, some 7, none⟩]
  bulk := true
  expandThreads := true
  createdAt := 0
  state := .pending
  attempts := 1
  notBefore := 100
  generation := 0
  updatedAt := 0

/-- A flag on another message of the conversation, which may go at once. -/
def markedLater : MailIntent where
  id := 2
  accountId := 1
  action := .markRead
  messages := [⟨11, some 5, false, false, some 7, none⟩]
  bulk := false
  createdAt := 10
  state := .pending
  attempts := 0
  notBefore := 10
  generation := 0
  updatedAt := 10

def conversation : Messages where
  rows := [⟨10, 1, 5, some 7, 0, false, false, false, none⟩,
    ⟨11, 1, 5, some 7, 0, false, false, false, none⟩]
  primaryKey := by decide

def twoIntents : KeyedTable MailIntent.id := ⟨[putOff, markedLater], by decide⟩

/-- The flag is sent while the archive of its conversation waits. -/
theorem flag_overtakes_archive : ¬∀ (found : IntentId → Messages)
    (intents : KeyedTable MailIntent.id) (now : Time),
    SentInOrder (actedOn found) intents.rows now (sendableIntents intents.rows now) := by
  intro h
  have hsent : markedLater ∈ sendableIntents twoIntents.rows 50 := by decide
  obtain ⟨_, hgo⟩ := (h (fun _ => conversation) twoIntents 50).mayGo markedLater hsent
  have hfirst : created putOff < created markedLater := by decide
  exact hgo.overtakesNone putOff (by decide) (by decide) hfirst 11 (by decide) (by decide)

end MailVerdict.Analysis.SendOrder
