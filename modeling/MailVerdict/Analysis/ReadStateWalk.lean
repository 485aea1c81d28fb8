import Mathlib.Data.Int.Interval
import MailVerdict.Model.ReadState

/-!
# The read-state walk reaches every mail

A tick reads the rows without a UID and the top window, so whatever it leaves unread lies
below, outside the window of the deep walk. From there the walk is a countdown over two
stretches: down from where the cursor stood to UID 1, then down from the top window to where
the cursor stood at first. `Left n` says that `n` more ticks are enough; a tick takes one off,
and `ticksNeeded`, the highest UID over the window size rounded up, is enough at the start,
wherever the cursor is.
-/

namespace MailVerdict.Analysis

open MailVerdict.Computation
open Model.ReadState

variable {f : Folder} {m : Message} {top : ℕ}

namespace ReadStateWalk

/-! ## What marking does -/

theorem markRow_id (ids : List Uuid) (m : Message) : (markRow ids m).id = m.id := by
  unfold markRow
  split <;> rfl

theorem markRow_imapUid (ids : List Uuid) (m : Message) :
    (markRow ids m).imapUid = m.imapUid := by
  unfold markRow
  split <;> rfl

theorem markRow_live (ids : List Uuid) (m : Message) : (markRow ids m).live = m.live := by
  unfold markRow
  split <;> rfl

theorem markRow_pending (ids : List Uuid) (m : Message) :
    (markRow ids m).pending = m.pending := by
  simp only [Message.pending, markRow_live, markRow_imapUid]

theorem unread_markRow (ids : List Uuid) (m : Message) :
    (markRow ids m).unread = (m.unread && !hit ids m) := by
  unfold markRow
  by_cases h : hit ids m = true
  · simp [h, Message.unread]
  · simp [h]

theorem mem_markSeenIfLive {ids : List Uuid}
    (h : m ∈ (markSeenIfLive f ids).messages) (hu : m.unread = true) :
    m ∈ f.messages ∧ m.id ∉ ids := by
  obtain ⟨m₀, hm₀, rfl⟩ := List.mem_map.1 h
  rw [unread_markRow, Bool.and_eq_true, Bool.not_eq_true'] at hu
  have hsame : markRow ids m₀ = m₀ := by simp [markRow, hu.2]
  rw [hsame]
  refine ⟨hm₀, fun hmem => ?_⟩
  have hhit : hit ids m₀ = true := by simp [hit, hmem, hu.1]
  simp [hhit] at hu

theorem countP_unread_markSeenIfLive (f : Folder) (ids : List Uuid) :
    (markSeenIfLive f ids).messages.countP Message.unread =
      f.messages.countP Message.unread - f.messages.countP (hit ids) := by
  have hsplit : ∀ l : List Message, (l.map (markRow ids)).countP Message.unread +
      l.countP (hit ids) = l.countP Message.unread := by
    intro l
    induction l with
    | nil => rfl
    | cons m l ih =>
      have hm := unread_markRow ids m
      have hsub : hit ids m = true → m.unread = true := by
        intro h
        exact ((Bool.and_eq_true _ _).mp h).2
      cases hh : hit ids m <;> cases hu : m.unread <;> simp_all <;> omega
  have h := hsplit f.messages
  simp only [markSeenIfLive]
  omega

theorem filterMap_markRow (f : Folder) (ids : List Uuid) :
    (markSeenIfLive f ids).messages.filterMap Message.imapUid =
      f.messages.filterMap Message.imapUid := by
  simp only [markSeenIfLive, List.filterMap_map]
  congr 1
  funext m
  exact markRow_imapUid ids m

theorem topUid_markSeenIfLive (f : Folder) (ids : List Uuid) :
    topUid (markSeenIfLive f ids) = topUid f := by
  rw [topUid, filterMap_markRow, topUid]

theorem wellFormed_mark (hf : WellFormed f) (ids : List Uuid) :
    WellFormed (markSeenIfLive f ids) where
  ids := by
    have h : (markSeenIfLive f ids).messages.map Message.id = f.messages.map Message.id := by
      simp only [markSeenIfLive, List.map_map]
      exact List.map_congr_left fun m _ => markRow_id ids m
    rw [h]
    exact hf.ids
  distinct := by
    rw [filterMap_markRow]
    exact hf.distinct
  uids := by
    intro m hm uid huid
    obtain ⟨m₀, hm₀, rfl⟩ := List.mem_map.1 hm
    rw [markRow_imapUid] at huid
    exact hf.uids m₀ hm₀ uid huid
  pending := by
    have h : (markSeenIfLive f ids).messages.countP Message.pending =
        f.messages.countP Message.pending := by
      simp only [markSeenIfLive, List.countP_map]
      exact congrArg (fun p => List.countP p f.messages) (funext (markRow_pending ids))
    rw [h]
    exact hf.pending
  count := by
    rw [countP_unread_markSeenIfLive, ← hf.count]
    rfl

theorem wellFormed_atCursor (hf : WellFormed f) (c : Option ℤ) :
    WellFormed { f with cursor := c } :=
  ⟨hf.ids, hf.distinct, hf.uids, hf.pending, hf.count⟩

/-! ## What a tick does -/

def lowUid (top : ℕ) : ℤ := lowOf (top + 1)

def deepStart (f : Folder) (top : ℕ) : ℤ := min (f.cursor.getD (lowUid top)) (lowUid top)

def topRows (f : Folder) (top : ℕ) : List Message :=
  pendingRows f ++ windowRows f (lowUid top) (top + 1)

def allRows (f : Folder) (top : ℕ) : List Message :=
  topRows f top ++ windowRows f (lowOf (deepStart f top)) (deepStart f top)

def nextCursor (f : Folder) (top : ℕ) : Option ℤ :=
  if lowOf (deepStart f top) > 1 then some (lowOf (deepStart f top)) else none

def goesDeep (f : Folder) (top : ℕ) : Prop :=
  lowUid top > 1 ∧ f.unreadCount > (topRows f top).countP fun m => !m.isSeen

theorem reconcileFolder_cases (f : Folder) :
    (f.unreadCount = 0 ∧ reconcileFolder f = ({ f with cursor := none }, noReads)) ∨
    (f.unreadCount ≠ 0 ∧ topUid f = none ∧
      reconcileFolder f = (markSeenIfLive f (unreadIds (pendingRows f)), ⟨true, []⟩)) ∨
    (∃ top, f.unreadCount ≠ 0 ∧ topUid f = some top ∧ goesDeep f top ∧
      reconcileFolder f =
        (markSeenIfLive { f with cursor := nextCursor f top } (unreadIds (allRows f top)),
          ⟨true, [(lowUid top, top + 1), (lowOf (deepStart f top), deepStart f top)]⟩)) ∨
    (∃ top, f.unreadCount ≠ 0 ∧ topUid f = some top ∧ ¬ goesDeep f top ∧
      reconcileFolder f =
        (markSeenIfLive f (unreadIds (topRows f top)), ⟨true, [(lowUid top, top + 1)]⟩)) := by
  by_cases hc : f.unreadCount = 0
  · exact .inl ⟨hc, by rw [reconcileFolder, if_pos hc]⟩
  · cases ht : topUid f with
    | none =>
      refine .inr (.inl ⟨hc, rfl, ?_⟩)
      rw [reconcileFolder, if_neg hc]
      simp only [ht]
    | some top =>
      by_cases hd : goesDeep f top
      · refine .inr (.inr (.inl ⟨top, hc, rfl, hd, ?_⟩))
        rw [reconcileFolder, if_neg hc]
        simp only [ht]
        exact if_pos hd
      · refine .inr (.inr (.inr ⟨top, hc, rfl, hd, ?_⟩))
        rw [reconcileFolder, if_neg hc]
        simp only [ht]
        exact if_neg hd

theorem topUid_tick (f : Folder) : topUid (tick f) = topUid f := by
  unfold tick
  rcases reconcileFolder_cases f with ⟨_, h⟩ | ⟨_, _, h⟩ | ⟨top, _, _, _, h⟩ | ⟨top, _, _, _, h⟩
  all_goals rw [h]
  · rfl
  · exact topUid_markSeenIfLive f _
  · exact topUid_markSeenIfLive _ _
  · exact topUid_markSeenIfLive f _

theorem wellFormed_tick (hf : WellFormed f) : WellFormed (tick f) := by
  unfold tick
  rcases reconcileFolder_cases f with ⟨_, h⟩ | ⟨_, _, h⟩ | ⟨top, _, _, _, h⟩ | ⟨top, _, _, _, h⟩
  all_goals rw [h]
  · exact wellFormed_atCursor hf none
  · exact wellFormed_mark hf _
  · exact wellFormed_mark (wellFormed_atCursor hf _) _
  · exact wellFormed_mark hf _

def AllRead (f : Folder) : Prop := ∀ m ∈ f.messages, m.unread = false

theorem allRead_iff_countP (f : Folder) :
    AllRead f ↔ f.messages.countP Message.unread = 0 := by
  rw [List.countP_eq_zero]
  exact forall₂_congr fun m _ => by rw [Bool.not_eq_true]

/-! ## What a tick leaves unread -/

theorem mem_unreadIds {rows : List Message} (h : m ∈ rows)
    (hu : m.unread = true) : m.id ∈ unreadIds rows := by
  have hseen : (!m.isSeen) = true := ((Bool.and_eq_true _ _).mp hu).2
  exact List.mem_map_of_mem (List.mem_filter.2 ⟨h, hseen⟩)

theorem mem_windowRows {low high : ℤ} (h : m ∈ f.messages)
    (hu : m.unread = true) {uid : ℕ} (huid : m.imapUid = some uid) (hlow : low ≤ uid)
    (hhigh : (uid : ℤ) < high) : m ∈ windowRows f low high := by
  have hlive : m.live = true := ((Bool.and_eq_true _ _).mp hu).1
  refine List.mem_filter.2 ⟨h, ?_⟩
  simp [hlive, Message.uidIn, huid, hlow, hhigh]

theorem pendingRows_eq (hf : WellFormed f) :
    pendingRows f = f.messages.filter Message.pending := by
  refine List.take_of_length_le ?_
  rw [← List.countP_eq_length_filter]
  exact hf.pending

theorem mem_pendingRows (hf : WellFormed f) (h : m ∈ f.messages)
    (hu : m.unread = true) (huid : m.imapUid = none) : m ∈ pendingRows f := by
  have hlive : m.live = true := ((Bool.and_eq_true _ _).mp hu).1
  rw [pendingRows_eq hf]
  exact List.mem_filter.2 ⟨h, by simp [Message.pending, hlive, huid]⟩

theorem le_topUid {uid : ℕ} (ht : topUid f = some top)
    (h : m ∈ f.messages) (huid : m.imapUid = some uid) : uid ≤ top := by
  have hmem : uid ∈ f.messages.filterMap Message.imapUid :=
    List.mem_filterMap.2 ⟨m, h, huid⟩
  exact (List.max?_eq_some_iff.1 ht).2 uid hmem

theorem below_of_not_mem_topRows (hf : WellFormed f)
    (ht : topUid f = some top) (h : m ∈ f.messages) (hu : m.unread = true)
    (hnot : m ∉ topRows f top) : ∃ uid ∈ m.imapUid, (uid : ℤ) < lowUid top := by
  cases huid : m.imapUid with
  | none =>
    exact absurd (List.mem_append_left _ (mem_pendingRows hf h hu huid)) hnot
  | some uid =>
    refine ⟨uid, rfl, Int.not_le.1 fun hle => hnot ?_⟩
    have htop : (uid : ℤ) < top + 1 := by
      have := le_topUid ht h huid
      omega
    exact List.mem_append_right _ (mem_windowRows h hu huid hle htop)

theorem countP_add_of_disjoint {α : Type} {p q : α → Bool} (l : List α)
    (h : ∀ x, p x = true → q x = false) :
    l.countP p + l.countP q = l.countP fun x => p x || q x := by
  induction l with
  | nil => rfl
  | cons a l ih =>
    have ha := h a
    rw [List.countP_cons, List.countP_cons, List.countP_cons, ← ih]
    cases hp : p a
    · simp only [Bool.false_or]
      cases q a <;> simp; omega
    · rw [ha hp]
      simp
      omega

theorem countP_topRows (hf : WellFormed f) (top : ℕ) :
    ((topRows f top).countP fun m => !m.isSeen) =
      f.messages.countP fun m =>
        m.unread && (m.imapUid.isNone || m.uidIn (lowUid top) (top + 1)) := by
  rw [topRows, pendingRows_eq hf, windowRows, List.countP_append, List.countP_filter,
    List.countP_filter, countP_add_of_disjoint]
  · refine congrArg (fun p => List.countP p f.messages) (funext fun m => ?_)
    rw [Message.pending, Message.unread]
    cases m.imapUid.isNone <;> cases m.uidIn (lowUid top) (top + 1) <;> cases m.live <;>
      cases m.isSeen <;> rfl
  · intro m hm
    have hnone : m.imapUid = none := by
      simp only [Message.pending, Bool.and_eq_true, Option.isNone_iff_eq_none] at hm
      exact hm.2.2
    simp [Message.uidIn, hnone]

theorem forall_of_countP_le {α : Type} {p q : α → Bool} {l : List α}
    (h : l.countP p ≤ l.countP fun x => p x && q x) : ∀ x ∈ l, p x = true → q x = true := by
  have hsplit := List.countP_eq_countP_filter_add l p q
  rw [List.countP_filter, List.countP_filter] at hsplit
  have hnone : (l.countP fun x => p x && !q x) = 0 := by omega
  intro x hx hp
  have hq := List.countP_eq_zero.1 hnone x hx
  simpa [hp] using hq

theorem mem_topRows_of_not_goesDeep (hf : WellFormed f)
    (ht : topUid f = some top) (hd : ¬ goesDeep f top) (h : m ∈ f.messages)
    (hu : m.unread = true) : m ∈ topRows f top := by
  by_contra hnot
  obtain ⟨uid, huid, hlt⟩ := below_of_not_mem_topRows hf ht h hu hnot
  have hpos : (1 : ℤ) ≤ uid := by
    have := hf.uids m h uid huid
    omega
  have hfound : f.messages.countP Message.unread ≤
      f.messages.countP fun m =>
        m.unread && (m.imapUid.isNone || m.uidIn (lowUid top) (top + 1)) := by
    rw [← countP_topRows hf, ← hf.count]
    exact Nat.not_lt.1 fun hgt => hd ⟨by omega, hgt⟩
  have hin := forall_of_countP_le hfound m h hu
  have huid' : m.imapUid = some uid := huid
  simp [Message.uidIn, huid'] at hin
  omega

/-- **What one tick leaves**: nothing unread, or only rows below the top window and outside
the deep window it has read, below which the walk continues. -/
theorem unread_tick (hf : WellFormed f) :
    AllRead (tick f) ∨ ∃ top, topUid f = some top ∧ (tick f).cursor = nextCursor f top ∧
      ∀ m ∈ (tick f).messages, m.unread = true → m ∈ f.messages ∧ ∃ uid ∈ m.imapUid,
        (uid : ℤ) < lowUid top ∧
          ((uid : ℤ) < lowOf (deepStart f top) ∨ deepStart f top ≤ uid) := by
  have hleft : ∀ (c : Option ℤ) (rows : List Message),
      (∀ m ∈ f.messages, m.unread = true → m ∈ rows) →
        AllRead (markSeenIfLive { f with cursor := c } (unreadIds rows)) := by
    intro c rows hall m hm
    by_contra hu
    rw [Bool.not_eq_false] at hu
    obtain ⟨hm, hnot⟩ := mem_markSeenIfLive hm hu
    exact hnot (mem_unreadIds (hall m hm hu) hu)
  rcases reconcileFolder_cases f with ⟨hc, h⟩ | ⟨_, ht, h⟩ | ⟨top, _, ht, _, h⟩ |
    ⟨top, _, ht, hd, h⟩
  · refine .inl ?_
    rw [tick, h]
    refine (allRead_iff_countP _).2 ?_
    exact hf.count.symm.trans hc
  · refine .inl ?_
    rw [tick, h]
    refine hleft f.cursor _ fun m hm hu => mem_pendingRows hf hm hu ?_
    cases huid : m.imapUid with
    | none => rfl
    | some uid =>
      have hnil := List.max?_eq_none_iff.1 ht
      have hmem : uid ∈ f.messages.filterMap Message.imapUid :=
        List.mem_filterMap.2 ⟨m, hm, huid⟩
      exact absurd hmem (hnil ▸ List.not_mem_nil)
  · refine .inr ⟨top, ht, ?_, ?_⟩
    · rw [tick, h]
      rfl
    · intro m hm hu
      rw [tick, h] at hm
      obtain ⟨hm, hnot⟩ := mem_markSeenIfLive hm hu
      have hrows : m ∉ allRows f top := fun hmem => hnot (mem_unreadIds hmem hu)
      have htop : m ∉ topRows f top := fun hmem => hrows (List.mem_append_left _ hmem)
      obtain ⟨uid, huid, hlt⟩ := below_of_not_mem_topRows hf ht hm hu htop
      refine ⟨hm, uid, huid, hlt, ?_⟩
      by_contra hin
      rw [not_or, Int.not_lt, Int.not_le] at hin
      exact hrows (List.mem_append_right _ (mem_windowRows hm hu huid hin.1 hin.2))
  · refine .inl ?_
    rw [tick, h]
    exact hleft f.cursor _ fun m hm hu => mem_topRows_of_not_goesDeep hf ht hd hm hu

/-! ## The countdown -/

def windowsOf (n : ℤ) : ℤ := (n + 499) / 500

/-- The walk is on its first way down: what is unread lies below it or not below `hi`, where
it began. -/
def Descending (n : ℕ) (hi : ℤ) (top : ℕ) (f : Folder) : Prop :=
  max 1 (windowsOf (deepStart f top - 1)) + windowsOf (lowUid top - hi) ≤ n ∧
    ∀ m ∈ f.messages, m.unread = true → ∀ uid ∈ m.imapUid,
      (uid : ℤ) < deepStart f top ∨ hi ≤ uid

/-- The walk has been at UID 1 and comes down again: what is unread lies below it and not
below `hi`. -/
def Returning (n : ℕ) (hi : ℤ) (top : ℕ) (f : Folder) : Prop :=
  windowsOf (deepStart f top - hi) ≤ n ∧
    ∀ m ∈ f.messages, m.unread = true → ∃ uid ∈ m.imapUid,
      hi ≤ (uid : ℤ) ∧ (uid : ℤ) < deepStart f top

def Left (n : ℕ) (f : Folder) : Prop :=
  AllRead f ∨ (topUid f = none ∧ 1 ≤ n) ∨
    ∃ top hi, topUid f = some top ∧ 1 ≤ hi ∧ hi ≤ lowUid top ∧
    (Descending n hi top f ∨ Returning n hi top f)

theorem lowUid_eq (top : ℕ) : lowUid top = max ((top : ℤ) + 1 - 500) 1 := rfl

theorem lowOf_eq (high : ℤ) : lowOf high = max (high - 500) 1 := rfl

theorem deepStart_le (f : Folder) (top : ℕ) : deepStart f top ≤ lowUid top := min_le_right _ _

theorem deepStart_of_cursor {g : Folder} (h : g.cursor = nextCursor f top) :
    (1 < lowOf (deepStart f top) ∧ deepStart g top = lowOf (deepStart f top)) ∨
      (lowOf (deepStart f top) ≤ 1 ∧ deepStart g top = lowUid top) := by
  have hd := deepStart_le f top
  have hlow := lowUid_eq top
  by_cases hgt : lowOf (deepStart f top) > 1
  · have hcur : g.cursor = some (lowOf (deepStart f top)) := by rw [h, nextCursor, if_pos hgt]
    refine .inl ⟨hgt, ?_⟩
    have heq := lowOf_eq (deepStart f top)
    rw [deepStart, hcur, Option.getD_some]
    omega
  · have hcur : g.cursor = none := by rw [h, nextCursor, if_neg hgt]
    exact .inr ⟨Int.not_lt.1 hgt, by rw [deepStart, hcur, Option.getD_none, min_self]⟩

theorem not_descending_zero {hi : ℤ} (hhi : hi ≤ lowUid top) :
    ¬ Descending 0 hi top f := by
  rintro ⟨hcost, -⟩
  unfold windowsOf at hcost
  omega

theorem allRead_of_returning_zero {hi : ℤ} (h : Returning 0 hi top f) :
    AllRead f := by
  obtain ⟨hcost, hrows⟩ := h
  intro m hm
  by_contra hu
  rw [Bool.not_eq_false] at hu
  obtain ⟨uid, -, hlo, hhi⟩ := hrows m hm hu
  unfold windowsOf at hcost
  omega

theorem allRead_of_left_zero (h : Left 0 f) : AllRead f := by
  rcases h with h | ⟨-, h⟩ | ⟨top, hi, -, -, hhi, h | h⟩
  · exact h
  · exact absurd h (Nat.not_succ_le_zero _)
  · exact absurd h (not_descending_zero hhi)
  · exact allRead_of_returning_zero h

/-- **The step lemma**: a tick takes one off what is left. -/
theorem left_tick (hf : WellFormed f) {n : ℕ} (h : Left (n + 1) f) :
    Left n (tick f) := by
  rcases unread_tick hf with hall | ⟨top, ht, hcur, hrows⟩
  · exact .inl hall
  · have ht' : topUid (tick f) = some top := (topUid_tick f).trans ht
    have hlow := lowOf_eq (deepStart f top)
    have hd := deepStart_le f top
    rcases h with hall | ⟨hnone, -⟩ | ⟨top', hi, htop', hpos, hhi, hphase⟩
    · refine .inl fun m hm => ?_
      by_contra hu
      rw [Bool.not_eq_false] at hu
      exact absurd (hall m (hrows m hm hu).1) (by simp [hu])
    · exact absurd (ht.symm.trans hnone) (Option.some_ne_none top)
    · obtain rfl : top = top' := Option.some.inj (ht.symm.trans htop')
      have hleft : Descending n hi top (tick f) ∨ Returning n hi top (tick f) →
          Left n (tick f) := fun h => .inr (.inr ⟨top, hi, ht', hpos, hhi, h⟩)
      rcases hphase with ⟨hcost, hwhere⟩ | ⟨hcost, hwhere⟩
      · rcases deepStart_of_cursor hcur with ⟨hgt, hnext⟩ | ⟨hle, hnext⟩
        · -- One window further on the first way down.
          refine hleft (.inl ⟨?_, fun m hm hu uid huid => ?_⟩)
          · unfold windowsOf at hcost ⊢
            omega
          · obtain ⟨hmem, uid', huid', hlt, hout⟩ := hrows m hm hu
            obtain rfl : uid = uid' := Option.some.inj (huid.symm.trans huid')
            have hwas := hwhere m hmem hu uid huid
            omega
        · -- UID 1 is reached: what is left lies between where the walk began and the top.
          refine hleft (.inr ⟨?_, fun m hm hu => ?_⟩)
          · unfold windowsOf at hcost ⊢
            omega
          · obtain ⟨hmem, uid, huid, hlt, hout⟩ := hrows m hm hu
            have hwas := hwhere m hmem hu uid huid
            have hone := hf.uids m hmem uid huid
            exact ⟨uid, huid, by omega, by omega⟩
      · rcases deepStart_of_cursor hcur with ⟨hgt, hnext⟩ | ⟨hle, hnext⟩
        · refine hleft (.inr ⟨?_, fun m hm hu => ?_⟩)
          · unfold windowsOf at hcost ⊢
            omega
          · obtain ⟨hmem, uid, huid, hlt, hout⟩ := hrows m hm hu
            obtain ⟨uid', huid', hlo, hhi'⟩ := hwhere m hmem hu
            obtain rfl : uid = uid' := Option.some.inj (huid.symm.trans huid')
            exact ⟨uid, huid, hlo, by omega⟩
        · -- The last window down to UID 1 leaves nothing.
          refine .inl fun m hm => ?_
          by_contra hu
          rw [Bool.not_eq_false] at hu
          obtain ⟨hmem, uid, huid, hlt, hout⟩ := hrows m hm hu
          obtain ⟨uid', huid', hlo, hhi'⟩ := hwhere m hmem hu
          obtain rfl : uid = uid' := Option.some.inj (huid.symm.trans huid')
          omega

/-! ## Enough ticks -/

/-- The highest UID over the window size, rounded up, and at least one. -/
def ticksNeeded (f : Folder) : ℕ := max 1 (((topUid f).getD 0 + (window - 1)) / window)

theorem left_ticksNeeded (hf : WellFormed f) : Left (ticksNeeded f) f := by
  cases ht : topUid f with
  | none =>
    exact .inr (.inl ⟨ht, le_max_left _ _⟩)
  | some top =>
    have hd := deepStart_le f top
    have hlow := lowUid_eq top
    refine .inr (.inr ⟨top, max (deepStart f top) 1, ht, by omega, by omega, .inl ⟨?_, ?_⟩⟩)
    · rw [ticksNeeded, ht, Option.getD_some]
      unfold windowsOf window
      omega
    · intro m hm _ uid huid
      have hone := hf.uids m hm uid huid
      omega

theorem wellFormed_iterate (hf : WellFormed f) (n : ℕ) : WellFormed (tick^[n] f) := by
  induction n with
  | zero => exact hf
  | succ n ih =>
    rw [Function.iterate_succ_apply']
    exact wellFormed_tick ih

theorem left_iterate (hf : WellFormed f) {n k : ℕ} (h : Left (n + k) f) :
    Left n (tick^[k] f) := by
  induction k generalizing n with
  | zero => exact h
  | succ k ih =>
    rw [Function.iterate_succ_apply']
    refine left_tick (wellFormed_iterate hf k) (ih ?_)
    rwa [Nat.add_right_comm, Nat.add_assoc]

theorem allRead_iterate (hf : WellFormed f) {n : ℕ} (hn : ticksNeeded f ≤ n) :
    AllRead (tick^[n] f) := by
  obtain ⟨k, rfl⟩ := Nat.exists_eq_add_of_le hn
  rw [Nat.add_comm, Function.iterate_add_apply]
  have hwf := wellFormed_iterate hf (ticksNeeded f)
  have hall : AllRead (tick^[ticksNeeded f] f) := by
    refine allRead_of_left_zero (left_iterate hf ?_)
    rw [Nat.zero_add]
    exact left_ticksNeeded hf
  exact allRead_of_left_zero (left_iterate hwf (.inl hall))

theorem noReads_of_allRead (hf : WellFormed f) (h : AllRead f) :
    (reconcileFolder f).2 = noReads := by
  have hc : f.unreadCount = 0 := hf.count.trans ((allRead_iff_countP f).1 h)
  rw [reconcileFolder, if_pos hc]

/-! ## What a tick reads -/

theorem length_windowRows_le (hf : WellFormed f) (low high : ℤ) :
    (windowRows f low high).length ≤ (high - low).toNat := by
  set uids := (windowRows f low high).filterMap Message.imapUid with huids
  have hlen : uids.length = (windowRows f low high).length := by
    rw [huids, List.length_filterMap_eq_countP, List.countP_eq_length]
    intro m hm
    have hin := (List.mem_filter.1 hm).2
    rw [Bool.and_eq_true, Message.uidIn] at hin
    cases hu : m.imapUid with
    | none => simp [hu] at hin
    | some uid => rfl
  have hnodup : uids.Nodup :=
    hf.distinct.sublist (List.Sublist.filterMap _ List.filter_sublist)
  have hsub : (uids.map Int.ofNat).toFinset ⊆ Finset.Ico low high := by
    intro x hx
    rw [List.mem_toFinset, List.mem_map] at hx
    obtain ⟨uid, huid, rfl⟩ := hx
    obtain ⟨m, hm, hmu⟩ := List.mem_filterMap.1 huid
    have hin := (List.mem_filter.1 hm).2
    simp only [Message.uidIn, hmu, Option.any_some, Bool.and_eq_true, decide_eq_true_eq] at hin
    exact Finset.mem_Ico.2 hin.2
  have hcard := Finset.card_le_card hsub
  rw [List.toFinset_card_of_nodup (hnodup.map Int.ofNat_injective), List.length_map, hlen,
    Int.card_Ico] at hcard
  exact hcard

theorem windows_bounded (hf : WellFormed f) :
    (reconcileFolder f).2.windows.length ≤ 2 ∧
      ∀ w ∈ (reconcileFolder f).2.windows, (windowRows f w.1 w.2).length ≤ window := by
  have hwidth : ∀ high : ℤ, (windowRows f (lowOf high) high).length ≤ window := by
    intro high
    refine (length_windowRows_le hf _ _).trans ?_
    have := lowOf_eq high
    unfold window
    omega
  rcases reconcileFolder_cases f with ⟨_, h⟩ | ⟨_, _, h⟩ | ⟨top, _, _, _, h⟩ | ⟨top, _, _, _, h⟩
  all_goals rw [h]
  · exact ⟨Nat.zero_le _, fun w hw => absurd hw List.not_mem_nil⟩
  · exact ⟨Nat.zero_le _, fun w hw => absurd hw List.not_mem_nil⟩
  · refine ⟨le_refl _, fun w hw => ?_⟩
    simp only [List.mem_cons, List.not_mem_nil, or_false] at hw
    rcases hw with rfl | rfl
    · exact hwidth _
    · exact hwidth _
  · refine ⟨Nat.le_succ 1, fun w hw => ?_⟩
    rw [List.mem_singleton] at hw
    rw [hw]
    exact hwidth _

/-! ## Arrivals -/

theorem wellFormed_arrive (hf : WellFormed f)
    (h : arrivable f m = true) : WellFormed (arrive f m) := by
  simp only [arrivable, Bool.and_eq_true, decide_eq_true_eq] at h
  obtain ⟨⟨hlive, hid⟩, huid⟩ := h
  have hcount : (arrive f m).unreadCount = (arrive f m).messages.countP Message.unread := by
    rw [arrive, List.countP_append, hf.count, List.countP_singleton]
  have hids : ((arrive f m).messages.map Message.id).Nodup := by
    rw [arrive, List.map_append, List.map_singleton]
    exact List.concat_eq_append ▸ hf.ids.concat hid
  cases hm : m.imapUid with
  | none =>
    simp only [hm, decide_eq_true_eq] at huid
    refine ⟨hids, ?_, ?_, ?_, hcount⟩
    · simp only [arrive, List.filterMap_append, List.filterMap_cons, hm, List.filterMap_nil,
        List.append_nil]
      exact hf.distinct
    · intro x hx uid hu
      rcases List.mem_append.1 hx with hx | hx
      · exact hf.uids x hx uid hu
      · rw [List.mem_singleton] at hx
        rw [hx, hm] at hu
        exact absurd hu (Option.not_mem_none uid)
    · rw [arrive, List.countP_append, List.countP_singleton]
      split <;> omega
  | some new =>
    simp only [hm, Bool.and_eq_true, decide_eq_true_eq] at huid
    refine ⟨hids, ?_, ?_, ?_, hcount⟩
    · simp only [arrive, List.filterMap_append, List.filterMap_cons, hm, List.filterMap_nil]
      rw [← List.concat_eq_append]
      refine hf.distinct.concat fun hmem => ?_
      cases ht : topUid f with
      | none => exact absurd hmem (List.max?_eq_none_iff.1 ht ▸ List.not_mem_nil)
      | some top =>
        have hle := (List.max?_eq_some_iff.1 ht).2 new hmem
        simp only [ht, Option.all_some, decide_eq_true_eq] at huid
        omega
    · intro x hx uid hu
      rcases List.mem_append.1 hx with hx | hx
      · exact hf.uids x hx uid hu
      · rw [List.mem_singleton] at hx
        rw [hx, hm, Option.mem_some_iff] at hu
        exact hu ▸ huid.1
    · have hpend : m.pending = false := by simp [Message.pending, hm]
      rw [arrive, List.countP_append, List.countP_singleton, hpend]
      exact hf.pending

theorem wellFormed_exec {s u : Folder} (ls : List Event) (hs : WellFormed s)
    (h : system.exec s ls = some u) : WellFormed u := by
  refine TransitionSystem.exec_preserves (T := system) ls (fun l _ f g hf hst => ?_) hs h
  cases l with
  | tick => exact Option.some.inj hst ▸ wellFormed_tick hf
  | arrive m =>
    simp only [system, step, Option.ite_none_right_eq_some, Option.some.injEq] at hst
    exact hst.2 ▸ wellFormed_arrive hf hst.1

def seenRow (m : Message) : Message := { m with isSeen := true }

theorem tick_seenRow (f : Folder) : (tick f).messages.map seenRow = f.messages.map seenRow := by
  have hmark : ∀ ids, (f.messages.map (markRow ids)).map seenRow = f.messages.map seenRow := by
    intro ids
    rw [List.map_map]
    refine List.map_congr_left fun m _ => ?_
    rw [Function.comp_apply, markRow]
    split <;> rfl
  unfold tick
  rcases reconcileFolder_cases f with ⟨_, h⟩ | ⟨_, _, h⟩ | ⟨top, _, _, _, h⟩ | ⟨top, _, _, _, h⟩
  all_goals rw [h]
  · exact hmark _
  · exact hmark _
  · exact hmark _

theorem iterate_seenRow (f : Folder) (n : ℕ) :
    (tick^[n] f).messages.map seenRow = f.messages.map seenRow := by
  induction n with
  | zero => rfl
  | succ n ih => rw [Function.iterate_succ_apply', tick_seenRow, ih]

/-- **The read-state walk reaches every mail**: after any ticks and arrivals of mail with higher
UIDs, `ticksNeeded` more ticks leave every live row read and the next nothing to read; no tick
reads more than two windows of UIDs; and of a row only its read flag is ever changed. -/
theorem read_state_walk_reaches_every_mail {s u : Folder} (ls : List Event)
    (hs : WellFormed s) (h : system.exec s ls = some u) :
    (∀ n, ticksNeeded u ≤ n →
      AllRead (tick^[n] u) ∧ (reconcileFolder (tick^[n] u)).2 = noReads) ∧
    (∀ n, (reconcileFolder (tick^[n] u)).2.windows.length ≤ 2 ∧
      ∀ w ∈ (reconcileFolder (tick^[n] u)).2.windows,
        (windowRows (tick^[n] u) w.1 w.2).length ≤ window) ∧
    ∀ n, (tick^[n] u).messages.map seenRow = u.messages.map seenRow := by
  have hu := wellFormed_exec ls hs h
  refine ⟨fun n hn => ?_, fun n => ?_, iterate_seenRow u⟩
  · have hall := allRead_iterate hu hn
    exact ⟨hall, noReads_of_allRead (wellFormed_iterate hu n) hall⟩
  · exact windows_bounded (wellFormed_iterate hu n)

/-- Unread mail in the middle, an expunged row on top, a cursor below it. -/
def sparseFolder : Folder where
  messages := [⟨1, some 700, false, false⟩, ⟨2, some 1400, true, false⟩,
    ⟨3, none, false, false⟩, ⟨4, some 20, false, true⟩]
  unreadCount := 2
  cursor := some 600

theorem read_state_walk_sparse :
    (∀ n, ticksNeeded (arrive (tick sparseFolder) ⟨5, some 2100, false, false⟩) ≤ n →
      AllRead (tick^[n] (arrive (tick sparseFolder) ⟨5, some 2100, false, false⟩)) ∧
      (reconcileFolder (tick^[n]
        (arrive (tick sparseFolder) ⟨5, some 2100, false, false⟩))).2 = noReads) ∧
    ticksNeeded (arrive (tick sparseFolder) ⟨5, some 2100, false, false⟩) = 5 :=
  ⟨(read_state_walk_reaches_every_mail (s := sparseFolder)
    [.tick, .arrive ⟨5, some 2100, false, false⟩]
    ⟨by decide, by decide, by decide, by decide, by decide⟩ (by decide)).1, by decide⟩

end ReadStateWalk

end MailVerdict.Analysis
