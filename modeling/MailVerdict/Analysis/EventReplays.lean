import MailVerdict.Analysis.EventRingReads

/-!
# Replays are complete

`has_events_after` looks at the oldest event each ring has kept. Since a ring is a suffix of its
account's events in id order (`RingInv`), an oldest event at or below the asked id leaves no gap
after it; and an id of another ring's epoch is read as one no ring replays from.
-/

namespace MailVerdict.Analysis.EventReplays

open MailVerdict.Computation Model.EventStream Analysis.EventRingReads

/-! ## A ring that was added to -/

theorem ringInv_addAll {r : EventRing} {history : List Event} (hr : RingInv r history)
    (calls : List (AccountId × String × String)) :
    RingInv (r.addAll calls).1 (history ++ (r.addAll calls).2) := by
  induction calls generalizing r history with
  | nil => simpa [EventRing.addAll] using hr
  | cons call calls ih =>
    obtain ⟨a, eventType, data⟩ := call
    rw [EventRing.addAll]
    cases hadd : r.add a eventType data with
    | error x => exact ih hr
    | ok added =>
      obtain ⟨ring, n⟩ := added
      have hrest := ih (hr.add hadd)
      rw [List.append_assoc] at hrest
      exact hrest

theorem eq_of_increasing {l m : List Event} (hl : BoundedLog.Increasing Event.id l)
    (hm : BoundedLog.Increasing Event.id m) (h : ∀ e, e ∈ l ↔ e ∈ m) : l = m := by
  have hirrefl : Std.Irrefl fun a b : Event => a.id < b.id := ⟨fun a => Nat.lt_irrefl a.id⟩
  have hasymm : Std.Antisymm fun a b : Event => a.id < b.id :=
    ⟨fun _ _ hab hba => absurd hba (Nat.lt_asymm hab)⟩
  exact List.Pairwise.eq_of_mem_iff hl hm h

theorem replayFrom_eq {r : EventRing} {history : List Event} (hr : RingInv r history) {last : ℕ}
    {filter : Option AccountId} (h : r.hasEventsAfter last filter = true) :
    r.replayFrom last filter =
      history.filter fun e => decide (inScope filter e.accountId) && decide (last < e.id) := by
  apply eq_of_increasing (hr.replayFrom_increasing last filter)
    (hr.increasing.sublist List.filter_sublist)
  intro e
  rw [List.mem_filter, Bool.and_eq_true, decide_eq_true_eq, decide_eq_true_eq]
  constructor
  · intro he
    obtain ⟨hhistory, hscope, hlt, -⟩ := hr.mem_replayFrom he
    exact ⟨hhistory, hscope, hlt⟩
  · rintro ⟨hhistory, hscope, hlt⟩
    exact hr.mem_replayFrom_of_hasEventsAfter h hhistory hscope hlt

/-! ## Ids of another ring -/

theorem dash_not_mem (epoch : Epoch) : '-' ∉ epoch.text.toList := by
  intro h
  exact absurd (epoch.hex _ h) (by decide)

theorem takeWhile_of_not_mem {l m : List Char} {sep : Char} (h : sep ∉ l) :
    (l ++ sep :: m).takeWhile (fun c => c ≠ sep) = l := by
  rw [List.takeWhile_append_of_pos]
  · rw [List.takeWhile_cons_of_neg (by simp), List.append_nil]
  · intro c hc
    rw [decide_eq_true_eq]
    rintro rfl
    exact h hc

theorem partition_formatEventId (epoch : Epoch) (seq : ℕ) :
    (partition (formatEventId epoch seq) '-').1 = epoch.text := by
  have hchars : (formatEventId epoch seq).toList =
      epoch.text.toList ++ '-' :: (toString seq).toList := by
    rw [formatEventId, String.toList_append, String.toList_append, List.append_assoc]
    rfl
  rw [partition, hchars]
  rw [takeWhile_of_not_mem (dash_not_mem epoch), String.ofList_toList]

theorem parseEventId_foreign (py : PythonDigits) {epoch other : Epoch}
    (h : other.text ≠ epoch.text) (seq : ℕ) :
    parseEventId py epoch (formatEventId other seq) = .ok none := by
  rw [parseEventId]
  dsimp only
  rw [if_pos]
  rw [partition_formatEventId, decide_eq_true h, Bool.or_true, Bool.true_or]

theorem formatEventId_ne_empty (epoch : Epoch) (seq : ℕ) : formatEventId epoch seq ≠ "" := by
  intro h
  have hchars := congrArg String.toList h
  rw [formatEventId, String.toList_append, String.toList_append] at hchars
  simp at hchars

theorem lastEventId_foreign (py : PythonDigits) {epoch other : Epoch}
    (h : other.text ≠ epoch.text) (seq : ℕ) :
    lastEventId py epoch (some (formatEventId other seq)) = .ok (some foreignEventId) := by
  rw [lastEventId, if_neg (formatEventId_ne_empty other seq), parseEventId_foreign py h]
  rfl

theorem not_replayable_foreign (r : EventRing) (filter : Option AccountId) :
    r.replayable foreignEventId filter = false := by
  rw [EventRing.replayable, decide_eq_false, Bool.false_and]
  rintro ⟨h, -⟩
  exact absurd h (by decide)

/-- **Replays are complete.** A replay a ring says it can make returns the events of the scope
after the id, each once and in order; and an id another ring issued is none it replays from. -/
theorem replay_is_complete (py : PythonDigits) (maxSize : ℕ) (hsize : 0 < maxSize)
    (calls : List (AccountId × String × String)) :
    let ring := ((EventRing.empty maxSize hsize).addAll calls).1
    let events := ((EventRing.empty maxSize hsize).addAll calls).2
    (events.Pairwise fun a b => a.id < b.id) ∧
      (∀ last ≤ ring.seq, ∀ filter, ring.hasEventsAfter last filter = true →
        ring.replayFrom last filter =
          events.filter fun e => decide (inScope filter e.accountId) && decide (last < e.id)) ∧
      ∀ epoch other : Epoch, other.text ≠ epoch.text → ∀ seq filter,
        ∃ id, lastEventId py epoch (some (formatEventId other seq)) = .ok (some id) ∧
          ring.replayable id filter = false := by
  intro ring events
  have hr : RingInv ring events := ringInv_addAll (ringInv_empty maxSize hsize) calls
  refine ⟨hr.increasing, ?_, ?_⟩
  · intro last _ filter h
    exact replayFrom_eq hr h
  · intro epoch other hother seq filter
    exact ⟨foreignEventId, lastEventId_foreign py hother seq, not_replayable_foreign ring filter⟩

def asciiDigits : PythonDigits where
  isDigit raw := decide (raw ≠ "") && raw.toList.all Char.isDigit
  int raw := raw.toNat?

def newEpoch : Epoch := ⟨"9f3c01ab", by simp⟩

def oldEpoch : Epoch := ⟨"07e2d5c4", by simp⟩

/-- Two accounts on a ring of two: the busier one has dropped its first event, and an id of the
process before it is not read back. -/
theorem replay_is_complete_evicted :
    let ring := ((EventRing.empty 2 (by decide)).addAll [(1, "mail.new", "a"),
      (1, "mail.new", "b"), (2, "mail.new", "c"), (1, "mail.updated", "d")]).1
    ring.hasEventsAfter 1 none = false ∧ ring.hasEventsAfter 3 none = true ∧
      (ring.replayFrom 3 none).map Event.id = [4] ∧
      ∃ id, lastEventId asciiDigits newEpoch (some (formatEventId oldEpoch 3)) = .ok (some id) ∧
        ring.replayable id none = false := by
  have h := (replay_is_complete asciiDigits 2 (by decide)
    [(1, "mail.new", "a"), (1, "mail.new", "b"), (2, "mail.new", "c"), (1, "mail.updated", "d")]).2
  have hreplay := h.1 3 (by decide) none (by decide)
  refine ⟨by decide, by decide, ?_, h.2 _ _ (by decide) 3 none⟩
  rw [hreplay]
  decide

end MailVerdict.Analysis.EventReplays
