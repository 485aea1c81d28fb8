import Mathlib.Algebra.BigOperators.Pi
import Mathlib.Algebra.BigOperators.Ring.Finset
import MailVerdict.Computation.KeyedTracks
import MailVerdict.Model.RowProjection

/-!
# The counts of folders

An intent reports for each message what it changes in the counts of the folders it leaves and
enters, which is what its track counts there afterwards less what it counted before
(`stepMessage_balance`). So what a list of intents adds to a folder is what the messages count
there after their last intent less what they counted at their first (`deltas_telescope`), as long
as no request of an intent left by the moment the counts were read.
-/

namespace MailVerdict.Analysis.CountDeltas

open Computation.KeyedTracks
open Model.MailActions Model.MailIntents Model.IntentLedger
open Model.RowProjection

/-! ## One intent on one message -/

/-- What a message counts in a folder, in the total and among the unread. -/
def countIn (f : Uuid) (track : MessageTrack) : ℤ × ℤ :=
  if track.folderId = some f then (1, if track.isSeen then 0 else 1) else 0

def addedTo (f : Uuid) (changes : List CountChange) : ℤ × ℤ :=
  ((changes.filter fun c => decide (c.1 = f)).map Prod.snd).sum

theorem addedTo_append (f : Uuid) (l m : List CountChange) :
    addedTo f (l ++ m) = addedTo f l + addedTo f m := by
  rw [addedTo, List.filter_append, List.map_append, List.sum_append]
  rfl

theorem addedTo_singleton (f : Uuid) (c : CountChange) :
    addedTo f [c] = if c.1 = f then c.2 else 0 := by
  by_cases h : c.1 = f <;> simp [addedTo, h]

theorem addedTo_folder (f : Uuid) (folder : Option Uuid) (change : ℤ × ℤ) :
    addedTo f (folder.toList.map fun g => (g, change)) = if folder = some f then change else 0 := by
  cases folder with
  | none => rfl
  | some g => simp [addedTo_singleton]

theorem stepMessage_balance (i : MailIntent) (track : MessageTrack) (f : Uuid) :
    addedTo f (stepMessage i track).2 = countIn f (stepMessage i track).1 - countIn f track := by
  have hleft : ∀ seen : Bool, addedTo f (track.folderId.toList.map fun g =>
      (g, (-1 : ℤ), if seen then (0 : ℤ) else -1)) =
        -(if track.folderId = some f then ((1 : ℤ), if seen then (0 : ℤ) else 1) else 0) := by
    intro seen
    rw [addedTo_folder]
    split
    · cases seen <;> rfl
    · rfl
  unfold stepMessage
  by_cases hleaves : intentLeaves i = true
  · rw [if_pos hleaves]
    dsimp only
    split
    · next landed hlanded =>
      split
      · rw [hleft]
        simp [countIn]
      · rw [addedTo_append, hleft, addedTo_singleton]
        simp only [countIn, Option.some.injEq]
        rw [neg_add_eq_sub]
    · rw [hleft]
      simp [countIn]
  · rw [if_neg hleaves]
    split
    · next hread =>
      rw [Bool.and_eq_true, Bool.not_eq_true'] at hread
      rw [addedTo_folder]
      simp only [countIn, hread.2]
      split
      · rfl
      · rfl
    · split
      · next hunread =>
        rw [Bool.and_eq_true] at hunread
        rw [addedTo_folder]
        simp only [countIn, hunread.2]
        split
        · rfl
        · rfl
      · exact (sub_self _).symm

/-! ## All intents -/

section Walk

/-- The intents that project, in the order they were taken, once for each message they name. -/
def visits (intents : List MailIntent) : List (MailIntent × IntentMessage) :=
  ((intents.filter isProjecting).insertionSort byCreation).flatMap fun i =>
    i.messages.map fun m => (i, m)

def visited (v : MailIntent × IntentMessage) : Uuid := v.2.id

def seenFirst (v : MailIntent × IntentMessage) : MessageTrack := ⟨v.2.folderId, v.2.isSeen⟩

def afterVisit (v : MailIntent × IntentMessage) (track : MessageTrack) : MessageTrack :=
  (stepMessage v.1 track).1

def messages (intents : List MailIntent) : Finset Uuid := ((visits intents).map visited).toFinset

def firstTrack (intents : List MailIntent) (k : Uuid) : Option MessageTrack :=
  first visited seenFirst (visits intents) k

def lastTrack (intents : List MailIntent) (k : Uuid) : Option MessageTrack :=
  last visited seenFirst afterVisit (visits intents) k

theorem foldl_visitMessage (l : List (MailIntent × IntentMessage))
    (tracks : Uuid → Option MessageTrack)
    (reported : List (MailIntent × IntentMessage × List CountChange)) :
    l.foldl visitMessage (tracks, reported) =
      (l.foldl (visit visited seenFirst afterVisit) tracks,
        reported ++ (walk visited seenFirst afterVisit tracks l).map fun x =>
          (x.1.1, x.1.2, (stepMessage x.1.1 x.2).2)) := by
  induction l generalizing tracks reported with
  | nil => simp [walk]
  | cons v l ih =>
    rw [List.foldl_cons, walk, List.map_cons, visitMessage, ih, List.foldl_cons]
    simp only [List.append_assoc, List.singleton_append]
    rfl

theorem walkMessages_eq (intents : List MailIntent) : walkMessages intents =
    (walk visited seenFirst afterVisit (fun _ => none) (visits intents)).map fun x =>
      (x.1.1, x.1.2, (stepMessage x.1.1 x.2).2) := by
  have hwalk : walkMessages intents = ((visits intents).foldl visitMessage (fun _ => none, [])).2 :=
    rfl
  rw [hwalk, foldl_visitMessage, List.nil_append]

theorem sum_reported (intents : List MailIntent) (f : Uuid) :
    ((walkMessages intents).map fun v => addedTo f v.2.2).sum =
      ∑ k ∈ messages intents,
        gain visited seenFirst afterVisit (countIn f) (visits intents) k := by
  rw [walkMessages_eq, List.map_map, messages, ← sum_walk]
  congr 1
  refine List.map_congr_left fun x _ => ?_
  exact stepMessage_balance x.1.1 x.2 f

theorem mem_of_mem_walkMessages {intents : List MailIntent}
    {v : MailIntent × IntentMessage × List CountChange} (h : v ∈ walkMessages intents) :
    v.1 ∈ intents ∧ isProjecting v.1 = true ∧ v.2.1 ∈ v.1.messages := by
  rw [walkMessages_eq] at h
  obtain ⟨x, hx, rfl⟩ := List.mem_map.1 h
  have hvisit : x.1 ∈ visits intents := by
    rw [← map_fst_walk visited seenFirst afterVisit (fun _ => none) (visits intents)]
    exact List.mem_map_of_mem hx
  obtain ⟨i, hi, hvisit⟩ := List.mem_flatMap.1 hvisit
  obtain ⟨m, hm, hvisit⟩ := List.mem_map.1 hvisit
  obtain ⟨hmem, hprojecting⟩ := List.mem_filter.1 ((List.mem_insertionSort byCreation).1 hi)
  rw [← hvisit]
  exact ⟨hmem, hprojecting, hm⟩

end Walk

/-! ## Counting -/

section Deltas

variable {intents : List MailIntent} {readAt : Time}

theorem foldl_addChange (changes : List CountChange) (deltas : Uuid → ℤ × ℤ) (f : Uuid) :
    changes.foldl addChange deltas f = deltas f + addedTo f changes := by
  induction changes generalizing deltas with
  | nil => exact (add_zero _).symm
  | cons c changes ih =>
    rw [List.foldl_cons, ih, ← List.singleton_append, addedTo_append, addedTo_singleton, addChange]
    by_cases h : c.1 = f
    · subst h
      rw [Function.update_self, if_pos rfl, add_assoc]
    · rw [Function.update_of_ne (Ne.symm h), if_neg h, zero_add]

theorem folderCountDeltas_eq (intents : List MailIntent) (readAt : Time) (f : Uuid) :
    folderCountDeltas intents readAt f =
      (((walkMessages intents).filter fun v => countsApply v.1 readAt).map fun v =>
        addedTo f v.2.2).sum := by
  have hfold : ∀ (l : List (MailIntent × IntentMessage × List CountChange)) (deltas : Uuid → ℤ × ℤ),
      l.foldl (fun deltas v =>
        if countsApply v.1 readAt then v.2.2.foldl addChange deltas else deltas) deltas f =
        deltas f + ((l.filter fun v => countsApply v.1 readAt).map fun v => addedTo f v.2.2).sum := by
    intro l
    induction l with
    | nil => exact fun deltas => (add_zero _).symm
    | cons v l ih =>
      intro deltas
      rw [List.foldl_cons, ih, List.filter_cons]
      by_cases hcounts : countsApply v.1 readAt = true
      · rw [if_pos hcounts, if_pos hcounts, foldl_addChange, List.map_cons, List.sum_cons, add_assoc]
      · rw [if_neg hcounts, if_neg hcounts]
  exact (hfold _ _).trans (zero_add _)

/-! ## Messages by folder -/

section Number

variable (tracks : Uuid → Option MessageTrack) (ids : Finset Uuid) (f : Uuid)

def numberIn : ℕ := (ids.filter fun k => ∃ t ∈ tracks k, t.folderId = some f).card

def unreadIn : ℕ :=
  (ids.filter fun k => ∃ t ∈ tracks k, t.folderId = some f ∧ t.isSeen = false).card

theorem sum_countIn : ∑ k ∈ ids, (tracks k).elim 0 (countIn f) =
    ((numberIn tracks ids f : ℤ), (unreadIn tracks ids f : ℤ)) := by
  have hone : ∀ track : Option MessageTrack, track.elim 0 (countIn f) =
      (if ∃ t ∈ track, t.folderId = some f then (1 : ℤ) else 0,
        if ∃ t ∈ track, t.folderId = some f ∧ t.isSeen = false then (1 : ℤ) else 0) := by
    intro track
    cases track with
    | none => rfl
    | some t =>
      by_cases hf : t.folderId = some f
      · cases hseen : t.isSeen <;> simp [countIn, hf, hseen]
      · simp [countIn, hf, Prod.ext_iff]
  simp only [hone, numberIn, unreadIn]
  rw [Prod.ext_iff, Prod.fst_sum, Prod.snd_sum, Finset.natCast_card_filter,
    Finset.natCast_card_filter]
  exact ⟨rfl, rfl⟩

end Number

def conversationUnread (entries : List (Uuid × Uuid × ℤ)) (thread f : Uuid) : ℤ :=
  ((entries.filter fun d => decide (d.1 = thread) && decide (d.2.1 = f)).map fun d => d.2.2).sum

/-- For every folder the changes are the messages there after their last intent less those there at
their first, in the total and among the unread; and if every message is in a conversation, the
unread of all conversations is the unread of the folder. -/
structure Telescopes (intents : List MailIntent) (readAt : Time) : Prop where
  total : ∀ f, (folderCountDeltas intents readAt f).1 =
    (numberIn (lastTrack intents) (messages intents) f : ℤ) -
      numberIn (firstTrack intents) (messages intents) f
  unread : ∀ f, (folderCountDeltas intents readAt f).2 =
    (unreadIn (lastTrack intents) (messages intents) f : ℤ) -
      unreadIn (firstTrack intents) (messages intents) f
  conversations : (∀ i ∈ intents, ∀ m ∈ i.messages, m.threadId.isSome = true) → ∀ f,
    ∑ thread ∈ ((conversationUnreadDeltas intents readAt).map Prod.fst).toFinset,
      conversationUnread (conversationUnreadDeltas intents readAt) thread f =
        (folderCountDeltas intents readAt f).2

theorem folderCountDeltas_of_unsent
    (h : ∀ i ∈ intents, ∀ sent ∈ i.firstSentAt, readAt < sent) (f : Uuid) :
    folderCountDeltas intents readAt f =
      ((numberIn (lastTrack intents) (messages intents) f : ℤ),
        (unreadIn (lastTrack intents) (messages intents) f : ℤ)) -
      ((numberIn (firstTrack intents) (messages intents) f : ℤ),
        (unreadIn (firstTrack intents) (messages intents) f : ℤ)) := by
  have hall : ∀ v ∈ walkMessages intents, countsApply v.1 readAt = true := by
    intro v hv
    obtain ⟨hmem, hprojecting, _⟩ := mem_of_mem_walkMessages hv
    unfold countsApply
    rw [hprojecting, Bool.true_and]
    split
    · rfl
    · next sent hsent => exact decide_eq_true (h v.1 hmem sent hsent)
  rw [folderCountDeltas_eq, List.filter_eq_self.2 hall, sum_reported]
  simp only [gain]
  rw [Finset.sum_sub_distrib, ← sum_countIn, ← sum_countIn]
  rfl

theorem snd_addedTo (f : Uuid) (changes : List CountChange) :
    (addedTo f changes).2 = ((changes.filter fun c => decide (c.1 = f)).map fun c => c.2.2).sum := by
  induction changes with
  | nil => rfl
  | cons c changes ih =>
    rw [← List.singleton_append, addedTo_append, Prod.snd_add, ih, addedTo_singleton]
    by_cases hc : c.1 = f
    · simp [hc]
    · simp [hc]

def entriesOf (readAt : Time) (v : MailIntent × IntentMessage × List CountChange) :
    List (Uuid × Uuid × ℤ) :=
  v.2.1.threadId.toList.flatMap fun thread =>
    if countsApply v.1 readAt then v.2.2.map fun c => (thread, c.1, c.2.2) else []

theorem conversationUnreadDeltas_eq (intents : List MailIntent) (readAt : Time) :
    conversationUnreadDeltas intents readAt = (walkMessages intents).flatMap (entriesOf readAt) := by
  unfold conversationUnreadDeltas
  congr 1
  funext v
  unfold entriesOf
  cases v.2.1.threadId with
  | none => rfl
  | some thread => simp

theorem sum_entries (readAt : Time) (f : Uuid)
    (l : List (MailIntent × IntentMessage × List CountChange))
    (h : ∀ v ∈ l, v.2.1.threadId.isSome = true) :
    (((l.flatMap (entriesOf readAt)).filter fun d => decide (d.2.1 = f)).map fun d => d.2.2).sum =
      ((l.filter fun v => countsApply v.1 readAt).map fun v => addedTo f v.2.2).sum.2 := by
  induction l with
  | nil => rfl
  | cons v l ih =>
    obtain ⟨thread, hthread⟩ := Option.isSome_iff_exists.1 (h v List.mem_cons_self)
    rw [List.flatMap_cons, List.filter_append, List.map_append, List.sum_append,
      ih fun x hx => h x (List.mem_cons_of_mem v hx), List.filter_cons]
    by_cases hcounts : countsApply v.1 readAt = true
    · have hone : (((entriesOf readAt v).filter fun d => decide (d.2.1 = f)).map fun d => d.2.2) =
          (v.2.2.filter fun c => decide (c.1 = f)).map fun c => c.2.2 := by
        simp [entriesOf, hthread, hcounts, List.filter_map, Function.comp_def]
      rw [if_pos hcounts, List.map_cons, List.sum_cons, Prod.snd_add, snd_addedTo, hone]
    · simp [entriesOf, hthread, hcounts]

theorem sum_conversationUnread
    (hthreads : ∀ i ∈ intents, ∀ m ∈ i.messages, m.threadId.isSome = true) (f : Uuid) :
    ∑ thread ∈ ((conversationUnreadDeltas intents readAt).map Prod.fst).toFinset,
      conversationUnread (conversationUnreadDeltas intents readAt) thread f =
        (folderCountDeltas intents readAt f).2 := by
  have hthread : ∀ v ∈ walkMessages intents, v.2.1.threadId.isSome = true := by
    intro v hv
    obtain ⟨hmem, _, hm⟩ := mem_of_mem_walkMessages hv
    exact hthreads v.1 hmem v.2.1 hm
  have hkeys : ∀ d ∈ (conversationUnreadDeltas intents readAt).filter fun d => decide (d.2.1 = f),
      d.1 ∈ ((conversationUnreadDeltas intents readAt).map Prod.fst).toFinset :=
    fun d hd => List.mem_toFinset.2 (List.mem_map_of_mem (List.mem_filter.1 hd).1)
  simp only [conversationUnread, ← List.filter_filter]
  rw [sum_by_key Prod.fst (fun d : Uuid × Uuid × ℤ => d.2.2) _ hkeys, folderCountDeltas_eq,
    ← sum_entries readAt f (walkMessages intents) hthread, conversationUnreadDeltas_eq]

/-- **Folder count deltas telescope**, for intents none of which was sent before the counts were
read or at that moment. -/
theorem deltas_telescope (intents : List MailIntent) (readAt : Time)
    (h : ∀ i ∈ intents, ∀ sent ∈ i.firstSentAt, readAt < sent) : Telescopes intents readAt where
  total f := congrArg Prod.fst (folderCountDeltas_of_unsent h f)
  unread f := congrArg Prod.snd (folderCountDeltas_of_unsent h f)
  conversations hthreads f := sum_conversationUnread hthreads f

end Deltas

/-- An unread message marked as read, the request first sent at 100. -/
def readSentAt100 : MailIntent where
  id := 1
  accountId := 1
  action := .markRead
  messages := [⟨10, some 5, false, false, some 7, none⟩]
  bulk := false
  createdAt := 90
  state := .inflight
  attempts := 1
  notBefore := 90
  firstSentAt := some 100
  generation := 0
  updatedAt := 100

theorem deltas_telescope_unsent : Telescopes [readSentAt100] 99 :=
  deltas_telescope [readSentAt100] 99 (by decide)

/-- A request sent at the moment the counts are read is not counted. -/
theorem sent_as_read : ¬∀ (intents : List MailIntent) (readAt : Time),
    (∀ i ∈ intents, ∀ sent ∈ i.firstSentAt, ¬sent < readAt) → Telescopes intents readAt := by
  intro h
  have hunread := (h [readSentAt100] 100 (by decide)).unread 5
  exact absurd hunread (by decide +kernel)

end MailVerdict.Analysis.CountDeltas
