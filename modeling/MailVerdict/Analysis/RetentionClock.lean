import MailVerdict.Model.RetentionSweep

/-!
# What the retention clock measures

The clock of a mail is its entry: when a sweep first saw it in a folder of a role. The
clock is right as long as an entry of the role it sits in is not older than its stay
(`Measured`). Three things break that, or what is read from it.

A mail that leaves and comes back finds its old entry where no sweep of the role dropped
it in between: two visits between sweeps, or more stale entries than a sweep drops. A mail
that comes after a sweep has begun and before it stamps gets the sweep's start. And what a
sweep has selected is expunged by id alone, wherever it then is.

`Undisturbed` excludes these for one mail; what a sweep then removes of it has sat in folders
of the role for the period (`expunged_in_time`).
-/

namespace MailVerdict.Analysis.RetentionClock

open MailVerdict.Computation
open Model.RetentionSweep

/-- The entries a sweep may still read: the committed ones, and those of the open sweep. -/
def entriesOf (s : State) : List RetentionEntry :=
  s.entries.rows ++ (match s.sweep with
    | some w => w.entries.rows
    | none => [])

def selected (s : State) : List Uuid :=
  match s.sweep with
  | some w =>
    match w.phase with
    | .selected ids => ids
    | _ => []
  | none => []

def stampTime (s : State) (use : Option SpecialUse) : Option Time :=
  match s.sweep with
  | some w => if w.phase = .begun ∧ use = some w.role.use then some w.startedAt else none
  | none => none

/-- A mail may come into a folder at a moment: no entry of the folder's role is left of it
from before, and no sweep of the role that began before is about to stamp it. -/
def ComesClean (s : State) (id : Uuid) (use : Option SpecialUse) (since : Time) : Prop :=
  (∀ e ∈ entriesOf s, e.messageId = id → use = some e.role.use → since ≤ e.enteredAt) ∧
    ∀ started, stampTime s use = some started → since ≤ started

/-- The step does not bring the mail into a folder while an older clock for its role is
there, does not take it away from one once a sweep has selected it, and does not raise its
period then. -/
def Undisturbed (id : Uuid) (s : State) : Label → Prop
  | .deliver _ folderId => s.nextId = id → ComesClean s id (s.use folderId) s.now
  | .resync old => s.nextId = id → ∀ m ∈ s.messages.rows, m.id = old →
      ComesClean s id (s.use m.folderId) m.satSince
  | .move moved folderId => moved = id → ∀ m ∈ s.messages.rows, m.id = id →
      s.use folderId ≠ s.use m.folderId →
        ComesClean s id (s.use folderId) s.now ∧ id ∉ selected s
  | .setFolder folderId folder => ∀ m ∈ s.messages.rows, m.id = id → m.folderId = folderId →
      folder.use ≠ s.use folderId → ComesClean s id folder.use s.now ∧ id ∉ selected s
  | .setRetentionDays accountId role days => ∀ m ∈ s.messages.rows, m.id = id →
      m.accountId = accountId → id ∈ selected s → (s.sweep.map Sweep.role) = some role →
        ∀ before, s.retentionDays accountId role = some before →
          ∃ after, days = some after ∧ after ≤ before
  | _ => True

/-- The mail sits in a folder of the sweep's role and has for the period its account has. -/
def Rightful (s : State) (w : Sweep) (m : Message) : Prop :=
  s.use m.folderId = some w.role.use ∧ ∃ days, s.retentionDays m.accountId w.role = some days ∧
    m.satSince + days * secondsPerDay ≤ s.now

structure Measured (id : Uuid) (s : State) : Prop where
  issued : ∀ m ∈ s.messages.rows, m.id < s.nextId ∧ m.satSince ≤ s.now
  entryIssued : ∀ e ∈ entriesOf s, e.messageId < s.nextId
  selectedIssued : ∀ i ∈ selected s, i < s.nextId
  begunBefore : ∀ w, s.sweep = some w → w.startedAt ≤ s.now
  account : ∀ e ∈ entriesOf s, e.messageId = id → ∀ m ∈ s.messages.rows, m.id = id →
    e.accountId = m.accountId
  clock : ∀ e ∈ entriesOf s, e.messageId = id → ∀ m ∈ s.messages.rows, m.id = id →
    s.use m.folderId = some e.role.use → m.satSince ≤ e.enteredAt
  stamp : ∀ m ∈ s.messages.rows, m.id = id → ∀ started,
    stampTime s (s.use m.folderId) = some started → m.satSince ≤ started
  due : ∀ w, s.sweep = some w → id ∈ selected s → ∀ m ∈ s.messages.rows, m.id = id →
    s.use m.folderId = some w.role.use ∧ ∃ days, s.retentionDays m.accountId w.role = some days ∧
      m.satSince + days * secondsPerDay ≤ w.startedAt

theorem measured_start (id : Uuid) : Measured id Model.RetentionSweep.start where
  issued := by
    intro m hm
    cases hm
  entryIssued := by
    intro e he
    cases he
  selectedIssued := by
    intro i hi
    cases hi
  begunBefore := by
    intro w hw
    cases hw
  account := by
    intro e he
    cases he
  clock := by
    intro e he
    cases he
  stamp := by
    intro m hm
    cases hm
  due := by
    intro w hw
    cases hw

section Mail

variable {id : Uuid} {s t : State}

structure SameSweep (s t : State) : Prop where
  entries : t.entries = s.entries
  sweep : t.sweep = s.sweep

theorem SameSweep.entriesOf (h : SameSweep s t) : entriesOf t = entriesOf s := by
  rw [RetentionClock.entriesOf, RetentionClock.entriesOf, h.entries, h.sweep]

theorem SameSweep.selected (h : SameSweep s t) : selected t = selected s := by
  rw [RetentionClock.selected, RetentionClock.selected, h.sweep]

theorem SameSweep.stampTime (h : SameSweep s t) (use : Option SpecialUse) :
    stampTime t use = stampTime s use := by
  rw [RetentionClock.stampTime, RetentionClock.stampTime, h.sweep]

/-- What a row of the mail is after a step of the mailbox: it stayed with its role, or it
came into its folder undisturbed. -/
def Stayed (s t : State) (id : Uuid) (m : Message) : Prop :=
  ∃ m' ∈ s.messages.rows, m'.id = id ∧ m'.accountId = m.accountId ∧ m'.satSince = m.satSince ∧
    s.use m'.folderId = t.use m.folderId

def Came (s t : State) (id : Uuid) (m : Message) : Prop :=
  ComesClean s id (t.use m.folderId) m.satSince ∧ id ∉ selected s ∧
    ∀ e ∈ entriesOf s, e.messageId = id → e.accountId = m.accountId

theorem Measured.mailbox (h : Measured id s) (hsweep : SameSweep s t) (hnow : t.now = s.now)
    (hdays : t.retentionDays = s.retentionDays) (hid : s.nextId ≤ t.nextId)
    (hissued : ∀ m ∈ t.messages.rows, m.id < t.nextId ∧ m.satSince ≤ s.now)
    (hrows : ∀ m ∈ t.messages.rows, m.id = id → Stayed s t id m ∨ Came s t id m) :
    Measured id t where
  issued := by
    rw [hnow]
    exact hissued
  entryIssued := by
    rw [hsweep.entriesOf]
    exact fun e he => lt_of_lt_of_le (h.entryIssued e he) hid
  selectedIssued := by
    rw [hsweep.selected]
    exact fun i hi => lt_of_lt_of_le (h.selectedIssued i hi) hid
  begunBefore := by
    rw [hsweep.sweep, hnow]
    exact h.begunBefore
  account := by
    rw [hsweep.entriesOf]
    intro e he heid m hm hmid
    obtain ⟨m', hm', hm'id, haccount, -⟩ | ⟨-, -, haccount⟩ := hrows m hm hmid
    · exact haccount ▸ h.account e he heid m' hm' hm'id
    · exact haccount e he heid
  clock := by
    rw [hsweep.entriesOf]
    intro e he heid m hm hmid huse
    obtain ⟨m', hm', hm'id, -, hsince, hsame⟩ | ⟨hclean, -, -⟩ := hrows m hm hmid
    · exact hsince ▸ h.clock e he heid m' hm' hm'id (hsame.trans huse)
    · exact hclean.1 e he heid huse
  stamp := by
    intro m hm hmid started hstarted
    rw [hsweep.stampTime] at hstarted
    obtain ⟨m', hm', hm'id, -, hsince, hsame⟩ | ⟨hclean, -, -⟩ := hrows m hm hmid
    · rw [← hsame] at hstarted
      exact hsince ▸ h.stamp m' hm' hm'id started hstarted
    · exact hclean.2 started hstarted
  due := by
    rw [hsweep.selected, hsweep.sweep, hdays]
    intro w hw hmem m hm hmid
    obtain ⟨m', hm', hm'id, haccount, hsince, hsame⟩ | ⟨-, hnot, -⟩ := hrows m hm hmid
    · have hdue := h.due w hw hmem m' hm' hm'id
      rw [haccount, hsince, hsame] at hdue
      exact hdue
    · exact absurd hmem hnot

theorem Measured.tick (h : Measured id s) (elapsed : ℕ) :
    Measured id { s with now := s.now + elapsed } where
  issued := fun m hm => (h.issued m hm).imp_right fun hsince =>
    le_trans hsince (Nat.le_add_right _ _)
  entryIssued := h.entryIssued
  selectedIssued := h.selectedIssued
  begunBefore := fun w hw => le_trans (h.begunBefore w hw) (Nat.le_add_right _ _)
  account := h.account
  clock := h.clock
  stamp := h.stamp
  due := h.due

theorem Measured.came_new (h : Measured id s) {m : Message} (hid : s.nextId = id)
    (hclean : ComesClean s id (t.use m.folderId) m.satSince) : Came s t id m := by
  refine ⟨hclean, fun hmem => ?_, fun e he heid => ?_⟩
  · exact absurd (h.selectedIssued id hmem) (hid ▸ Nat.lt_irrefl _)
  · exact absurd (h.entryIssued e he) (heid ▸ hid ▸ Nat.lt_irrefl _)

theorem Measured.rewritten (h : Measured id s) {m m' : Message} (hm' : m' ∈ s.messages.rows)
    (hm'id : m'.id = id) (haccount : m.accountId = m'.accountId)
    (hsince : m.satSince = s.sitsFrom (s.use m'.folderId) (t.use m.folderId) m'.satSince)
    (hclean : t.use m.folderId ≠ s.use m'.folderId →
      ComesClean s id (t.use m.folderId) s.now ∧ id ∉ selected s) :
    Stayed s t id m ∨ Came s t id m := by
  rw [State.sitsFrom] at hsince
  by_cases hsame : t.use m.folderId = s.use m'.folderId
  · rw [if_pos hsame] at hsince
    exact Or.inl ⟨m', hm', hm'id, haccount.symm, hsince.symm, hsame.symm⟩
  · rw [if_neg hsame] at hsince
    obtain ⟨hcomes, hnot⟩ := hclean hsame
    refine Or.inr ⟨hsince ▸ hcomes, hnot, fun e he heid => ?_⟩
    rw [haccount]
    exact h.account e he heid m' hm' hm'id

def SameRow (m m' : Message) : Prop :=
  m'.id = m.id ∧ m'.accountId = m.accountId ∧ m'.folderId = m.folderId ∧ m'.satSince = m.satSince

/-- Steps of the sweep keep the invariant: an entry is an old one or is stamped now for a
message that sits there, and what becomes selected is due. -/
theorem Measured.swept (h : Measured id s)
    (hrest : t.now = s.now ∧ t.nextId = s.nextId ∧ t.folder = s.folder ∧
      t.retentionDays = s.retentionDays)
    (hrows : ∀ m ∈ t.messages.rows, ∃ m' ∈ s.messages.rows, SameRow m m')
    (hentries : ∀ e ∈ entriesOf t, e ∈ entriesOf s ∨ ∃ m ∈ s.messages.rows,
      m.id = e.messageId ∧ m.accountId = e.accountId ∧ s.use m.folderId = some e.role.use ∧
        stampTime s (some e.role.use) = some e.enteredAt)
    (hselected : ∀ i ∈ selected t, i < s.nextId)
    (hbegun : ∀ w, t.sweep = some w → w.startedAt ≤ s.now)
    (hstamp : ∀ use started, stampTime t use = some started → started = s.now)
    (hdue : ∀ w, t.sweep = some w → id ∈ selected t → ∀ m ∈ s.messages.rows, m.id = id →
      s.use m.folderId = some w.role.use ∧ ∃ days,
        s.retentionDays m.accountId w.role = some days ∧
          m.satSince + days * secondsPerDay ≤ w.startedAt) : Measured id t := by
  obtain ⟨hnow, hnext, hfolder, hdays⟩ := hrest
  have huse : ∀ f, t.use f = s.use f := by
    intro f
    rw [State.use, State.use, hfolder]
  refine ⟨?_, ?_, ?_, ?_, ?_, ?_, ?_, ?_⟩
  · intro m hm
    obtain ⟨m', hm', hsame, -, -, hsince⟩ := hrows m hm
    rw [hnext, hnow, ← hsame, ← hsince]
    exact h.issued m' hm'
  · intro e he
    rw [hnext]
    obtain hold | ⟨m, hm, hmid, -⟩ := hentries e he
    · exact h.entryIssued e hold
    · exact hmid ▸ (h.issued m hm).1
  · intro i hi
    rw [hnext]
    exact hselected i hi
  · intro w hw
    rw [hnow]
    exact hbegun w hw
  · intro e he heid m hm hmid
    obtain ⟨m', hm', hsame, haccount, -⟩ := hrows m hm
    rw [← haccount]
    obtain hold | ⟨n, hn, hnid, hnaccount, -⟩ := hentries e he
    · exact h.account e hold heid m' hm' (hsame.trans hmid)
    · have hone : n = m' := s.messages.eq_of_key_eq hn hm'
        (hnid.trans (heid.trans (hsame.trans hmid).symm))
      rw [← hnaccount, hone]
  · intro e he heid m hm hmid hmuse
    obtain ⟨m', hm', hsame, -, hfolderId, hsince⟩ := hrows m hm
    rw [← hsince]
    rw [huse, ← hfolderId] at hmuse
    obtain hold | ⟨n, hn, hnid, -, -, hstarted⟩ := hentries e he
    · exact h.clock e hold heid m' hm' (hsame.trans hmid) hmuse
    · exact h.stamp m' hm' (hsame.trans hmid) e.enteredAt (by rwa [hmuse])
  · intro m hm hmid started hstarted
    obtain ⟨m', hm', hsame, -, -, hsince⟩ := hrows m hm
    rw [hstamp _ started hstarted, ← hsince]
    exact (h.issued m' hm').2
  · intro w hw hmem m hm hmid
    obtain ⟨m', hm', hsame, haccount, hfolderId, hsince⟩ := hrows m hm
    rw [huse, hdays, ← haccount, ← hfolderId, ← hsince]
    exact hdue w hw hmem m' hm' (hsame.trans hmid)

theorem sameRow_self : ∀ m ∈ s.messages.rows, ∃ m' ∈ s.messages.rows, SameRow m m' :=
  fun m hm => ⟨m, hm, rfl, rfl, rfl, rfl⟩

theorem sitsFrom_le {before after : Option SpecialUse} {satSince : Time}
    (h : satSince ≤ s.now) : s.sitsFrom before after satSince ≤ s.now := by
  rw [State.sitsFrom]
  split
  · exact h
  · exact Nat.le_refl _

end Mail

section Sweeps

variable {id : Uuid} {s t : State} {w : Sweep}

theorem mem_entriesOf_sweep {e : RetentionEntry} (hw : s.sweep = some w)
    (he : e ∈ w.entries.rows) : e ∈ entriesOf s := by
  rw [entriesOf, hw]
  exact List.mem_append_right _ he

theorem Measured.beginSweep (h : Measured id s) (role : Role) :
    Measured id { s with sweep := some ⟨role, s.now, .begun, s.entries⟩ } := by
  refine h.swept ⟨rfl, rfl, rfl, rfl⟩ sameRow_self (fun e he => Or.inl ?_) (fun i hi => ?_)
    (fun w hw => ?_) (fun use started hstarted => ?_) (fun w hw hmem => ?_)
  · have hcommitted : e ∈ s.entries.rows := (List.mem_append.1 he).elim (fun h => h) fun h => h
    exact List.mem_append_left _ hcommitted
  · cases hi
  · cases hw
    exact Nat.le_refl _
  · simp only [stampTime] at hstarted
    split at hstarted
    · cases hstarted
      rfl
    · cases hstarted
  · cases hmem

theorem Measured.goesOn (h : Measured id s) (hw : s.sweep = some w) {w' : Sweep}
    (hstart : w'.startedAt = w.startedAt) (hbegun : w'.phase ≠ .begun)
    (hphase : ∀ ids, w'.phase ≠ .selected ids)
    (hentries : ∀ e ∈ w'.entries.rows, e ∈ w.entries.rows ∨ ∃ m ∈ s.messages.rows,
      m.id = e.messageId ∧ m.accountId = e.accountId ∧ s.use m.folderId = some e.role.use ∧
        stampTime s (some e.role.use) = some e.enteredAt) :
    Measured id { s with sweep := some w' } := by
  have hnone : selected { s with sweep := some w' } = [] := by
    rw [selected]
    split
    · next w'' hw'' =>
        cases hw''
        split
        · next ids hids => exact absurd hids (hphase ids)
        · rfl
    · rfl
  refine h.swept ⟨rfl, rfl, rfl, rfl⟩ sameRow_self (fun e he => ?_) (fun i hi => ?_)
    (fun w'' hw'' => ?_) (fun use started hstarted => ?_) (fun w'' hw'' hmem => ?_)
  · obtain hold | hnew := List.mem_append.1 he
    · exact Or.inl (List.mem_append_left _ hold)
    · exact (hentries e hnew).imp_left (mem_entriesOf_sweep hw)
  · rw [hnone] at hi
    cases hi
  · cases hw''
    rw [hstart]
    exact h.begunBefore w hw
  · simp only [stampTime] at hstarted
    rw [if_neg fun hboth => hbegun hboth.1] at hstarted
    cases hstarted
  · rw [hnone] at hmem
    cases hmem

theorem Measured.stamped (h : Measured id s) (hw : s.sweep = some w) (hphase : w.phase = .begun)
    {chosen : List Uuid} (hst : s.stamp w chosen = some t) : Measured id t := by
  rw [State.stamp] at hst
  split at hst
  · cases hst
    refine h.goesOn hw rfl (fun hbegun => by cases hbegun) (fun ids hids => by cases hids)
      fun e he => ?_
    obtain hold | hnew := KeyedTable.mem_insertAll.2 he
    · exact Or.inl hold
    · obtain ⟨m, hm, rfl⟩ := List.mem_map.1 hnew
      have hunstamped := List.mem_filter.1 (List.mem_filter.1 hm).1
      simp only [Bool.and_eq_true, decide_eq_true_eq] at hunstamped
      refine Or.inr ⟨m, hunstamped.1, rfl, rfl, hunstamped.2.1.1.2, ?_⟩
      simp only [stampTime, hw]
      rw [if_pos ⟨hphase, trivial⟩]
  · cases hst

theorem Measured.dropped (h : Measured id s) (hw : s.sweep = some w) {chosen : List Uuid}
    (hst : s.drop w chosen = some t) : Measured id t := by
  rw [State.drop] at hst
  split at hst
  · cases hst
    refine h.goesOn hw rfl (fun hbegun => by cases hbegun) (fun ids hids => by cases hids)
      fun e he => Or.inl ?_
    exact (KeyedTable.mem_filter.1 he).1
  · cases hst

theorem mem_overdue {i : Uuid} (hi : i ∈ s.overdue w) : ∃ e ∈ w.entries.rows,
    e.messageId = i ∧ e.role = w.role ∧ (∃ days, s.retentionDays e.accountId w.role = some days ∧
      e.enteredAt + days * secondsPerDay < w.startedAt) ∧
    ∃ m ∈ s.messages.rows, m.id = i ∧ s.use m.folderId = some w.role.use := by
  rw [State.overdue] at hi
  obtain ⟨e, he, rfl⟩ := List.mem_map.1 hi
  have hfilter := List.mem_filter.1 ((List.mem_insertionSort _).1 (List.mem_of_mem_take he))
  simp only [Bool.and_eq_true, decide_eq_true_eq] at hfilter
  obtain ⟨hrow, ⟨hrole, hoverdue⟩, hsits⟩ := hfilter
  refine ⟨e, hrow, rfl, hrole, ?_, ?_⟩
  · rw [State.isOverdue] at hoverdue
    split at hoverdue
    · next days hdays => exact ⟨days, hdays, of_decide_eq_true hoverdue⟩
    · cases hoverdue
  · simp only [State.sits, List.any_eq_true, Bool.and_eq_true, decide_eq_true_eq] at hsits
    obtain ⟨m, hm, ⟨hmid, -⟩, huse⟩ := hsits
    exact ⟨m, hm, hmid, huse⟩

theorem Measured.select (h : Measured id s) (hw : s.sweep = some w) :
    Measured id { s with sweep := some { w with phase := .selected (s.overdue w) } } := by
  refine h.swept ⟨rfl, rfl, rfl, rfl⟩ sameRow_self (fun e he => Or.inl ?_) (fun i hi => ?_)
    (fun w' hw' => ?_) (fun use started hstarted => ?_) (fun w' hw' hmem m hm hmid => ?_)
  · obtain hold | hnew := List.mem_append.1 he
    · exact List.mem_append_left _ hold
    · exact mem_entriesOf_sweep hw hnew
  · obtain ⟨e, he, rfl, -⟩ := mem_overdue hi
    exact h.entryIssued e (mem_entriesOf_sweep hw he)
  · cases hw'
    exact h.begunBefore w hw
  · simp only [stampTime] at hstarted
    rw [if_neg fun hboth => by cases hboth.1] at hstarted
    cases hstarted
  · cases hw'
    obtain ⟨e, he, heid, hrole, ⟨days, hdays, hoverdue⟩, n, hn, hnid, huse⟩ := mem_overdue hmem
    have hone : n = m := s.messages.eq_of_key_eq hn hm (hnid.trans hmid.symm)
    rw [hone] at huse
    have hclock := h.clock e (mem_entriesOf_sweep hw he) heid m hm hmid (by rw [hrole, huse])
    have haccount := h.account e (mem_entriesOf_sweep hw he) heid m hm hmid
    rw [haccount] at hdays
    refine ⟨huse, days, hdays, ?_⟩
    exact le_trans (Nat.add_le_add_right hclock _) (Nat.le_of_lt hoverdue)

theorem Measured.remove (h : Measured id s) (hw : s.sweep = some w) (ids : List Uuid) :
    Measured id (s.remove w ids) := by
  refine h.swept ⟨rfl, rfl, rfl, rfl⟩ (fun m hm => ?_) (fun e he => Or.inl ?_) (fun i hi => ?_)
    (fun w' hw' => ?_) (fun use started hstarted => ?_) (fun w' hw' => ?_)
  · obtain ⟨m', hm', rfl⟩ := (KeyedTable.mem_of_eq_update (u := (s.remove w ids).messages)
      (by exact fun _ => rfl) rfl).1 hm
    refine ⟨m', hm', ?_⟩
    split
    · exact ⟨rfl, rfl, rfl, rfl⟩
    · exact ⟨rfl, rfl, rfl, rfl⟩
  · obtain hold | hnew := List.mem_append.1 he
    · exact mem_entriesOf_sweep hw (KeyedTable.mem_filter.1 hold).1
    · cases hnew
  · cases hi
  · cases hw'
  · cases hstarted
  · cases hw'

theorem Measured.abort (h : Measured id s) : Measured id { s with sweep := none } := by
  refine h.swept ⟨rfl, rfl, rfl, rfl⟩ sameRow_self (fun e he => Or.inl ?_) (fun i hi => ?_)
    (fun w' hw' => ?_) (fun use started hstarted => ?_) (fun w' hw' => ?_)
  · obtain hold | hnew := List.mem_append.1 he
    · exact List.mem_append_left _ hold
    · cases hnew
  · cases hi
  · cases hw'
  · cases hstarted
  · cases hw'

end Sweeps

section Claim

variable {id : Uuid} {s t : State}

theorem Measured.moved (h : Measured id s) {i folderId : Uuid}
    (hp : Undisturbed id s (.move i folderId)) : Measured id (s.move i folderId) := by
  refine h.mailbox ⟨rfl, rfl⟩ rfl rfl (Nat.le_refl _) (fun m hm => ?_) fun m hm hmid => ?_
  · obtain ⟨m', hm', rfl⟩ := (KeyedTable.mem_of_eq_update (u := (s.move i folderId).messages)
      (by exact fun _ => rfl) rfl).1 hm
    have hold := h.issued m' hm'
    split
    · exact ⟨hold.1, sitsFrom_le hold.2⟩
    · exact hold
  · obtain ⟨m', hm', rfl⟩ := (KeyedTable.mem_of_eq_update (u := (s.move i folderId).messages)
      (by exact fun _ => rfl) rfl).1 hm
    split at hmid
    · next hmatch =>
        have hid : m'.id = id := hmid
        rw [if_pos hmatch]
        refine h.rewritten hm' hid rfl rfl fun hother => ?_
        exact hp ((of_decide_eq_true hmatch).symm.trans hid) m' hm' hid hother
    · next hmatch =>
        rw [if_neg hmatch]
        exact Or.inl ⟨m', hm', hmid, rfl, rfl, rfl⟩

theorem Measured.setFolder (h : Measured id s) {folderId : Uuid} {folder : Folder}
    (hp : Undisturbed id s (.setFolder folderId folder)) :
    Measured id (s.setFolder folderId folder) := by
  refine h.mailbox ⟨rfl, rfl⟩ rfl rfl (Nat.le_refl _) (fun m hm => ?_) fun m hm hmid => ?_
  · obtain ⟨m', hm', rfl⟩ := (KeyedTable.mem_of_eq_update (u := (s.setFolder folderId folder).messages)
      (by exact fun _ => rfl) rfl).1 hm
    have hold := h.issued m' hm'
    split
    · exact ⟨hold.1, sitsFrom_le hold.2⟩
    · exact hold
  · obtain ⟨m', hm', rfl⟩ := (KeyedTable.mem_of_eq_update (u := (s.setFolder folderId folder).messages)
      (by exact fun _ => rfl) rfl).1 hm
    have hnew : (s.setFolder folderId folder).use folderId = folder.use := by
      rw [State.use, State.setFolder]
      simp only [Function.update_self]
    split at hmid
    · next hmatch =>
        have hid : m'.id = id := hmid
        have hfolder : m'.folderId = folderId := of_decide_eq_true hmatch
        rw [if_pos hmatch]
        refine h.rewritten hm' hid rfl ?_ fun hother => ?_
        · show s.sitsFrom _ _ _ = s.sitsFrom _ ((s.setFolder folderId folder).use m'.folderId) _
          rw [hfolder, hnew]
        · have hother' : (s.setFolder folderId folder).use m'.folderId ≠ s.use m'.folderId := hother
          rw [hfolder, hnew] at hother'
          have hcomes := hp m' hm' hid hfolder hother'
          show ComesClean s id ((s.setFolder folderId folder).use m'.folderId) s.now ∧ _
          rwa [hfolder, hnew]
    · next hmatch =>
        have hother : m'.folderId ≠ folderId := by
          intro heq
          exact hmatch (decide_eq_true heq)
        rw [if_neg hmatch]
        refine Or.inl ⟨m', hm', hmid, rfl, rfl, ?_⟩
        rw [State.use, State.use, State.setFolder]
        simp only [Function.update_of_ne hother]

theorem Measured.delivered (h : Measured id s) {accountId folderId : Uuid}
    (hp : Undisturbed id s (.deliver accountId folderId))
    (hst : s.deliver accountId folderId = some t) : Measured id t := by
  rw [State.deliver] at hst
  split at hst
  · next hfresh =>
      cases hst
      refine h.mailbox ⟨rfl, rfl⟩ rfl rfl (Nat.le_succ _) (fun m hm => ?_) fun m hm hmid => ?_
      · obtain hold | rfl := (KeyedTable.mem_insert hfresh).1 hm
        · exact (h.issued m hold).imp_left Nat.lt_succ_of_lt
        · exact ⟨Nat.lt_succ_self _, Nat.le_refl _⟩
      · obtain hold | rfl := (KeyedTable.mem_insert hfresh).1 hm
        · exact Or.inl ⟨m, hold, hmid, rfl, rfl, rfl⟩
        · exact Or.inr (h.came_new hmid (hp hmid))
  · cases hst

theorem Measured.resynced (h : Measured id s) {old : Uuid}
    (hp : Undisturbed id s (.resync old)) (hst : s.resync old = some t) : Measured id t := by
  rw [State.resync] at hst
  split at hst
  · cases hst
  · next m hfind =>
      obtain ⟨hm, hmold⟩ := KeyedTable.find?_eq_some_iff.1 hfind
      split at hst
      · next hfresh =>
          cases hst
          refine h.mailbox ⟨rfl, rfl⟩ rfl rfl (Nat.le_succ _) (fun n hn => ?_) fun n hn hnid => ?_
          · obtain hold | rfl := (KeyedTable.mem_insert hfresh).1 hn
            · exact (h.issued n (KeyedTable.mem_erase.1 hold).1).imp_left Nat.lt_succ_of_lt
            · exact ⟨Nat.lt_succ_self _, (h.issued m hm).2⟩
          · obtain hold | rfl := (KeyedTable.mem_insert hfresh).1 hn
            · exact Or.inl ⟨n, (KeyedTable.mem_erase.1 hold).1, hnid, rfl, rfl, rfl⟩
            · exact Or.inr (h.came_new hnid (hp hnid m hm hmold))
      · cases hst

theorem Measured.expunged (h : Measured id s) (i : Uuid) :
    Measured id { s with
      messages := s.messages.update (fun m => decide (m.id = i))
        (fun m => { m with expungedAt := some s.now }) (fun _ => rfl) } := by
  have hrows : ∀ m ∈ (s.messages.update (fun m => decide (m.id = i))
      (fun m => { m with expungedAt := some s.now }) (fun _ => rfl)).rows,
      ∃ m' ∈ s.messages.rows, SameRow m m' := by
    intro m hm
    obtain ⟨m', hm', rfl⟩ := KeyedTable.mem_update.1 hm
    refine ⟨m', hm', ?_⟩
    split
    · exact ⟨rfl, rfl, rfl, rfl⟩
    · exact ⟨rfl, rfl, rfl, rfl⟩
  refine h.mailbox ⟨rfl, rfl⟩ rfl rfl (Nat.le_refl _) (fun m hm => ?_) fun m hm hmid => Or.inl ?_
  · obtain ⟨m', hm', hsame, -, -, hsince⟩ := hrows m hm
    rw [← hsame, ← hsince]
    exact h.issued m' hm'
  · obtain ⟨m', hm', hsame, haccount, hfolder, hsince⟩ := hrows m hm
    refine ⟨m', hm', hsame.trans hmid, haccount, hsince, ?_⟩
    rw [hfolder]
    rfl

theorem Measured.setRetentionDays (h : Measured id s) {accountId : Uuid} {role : Role}
    {days : Option ℕ} (hp : Undisturbed id s (.setRetentionDays accountId role days)) :
    Measured id { s with
      retentionDays := Function.update s.retentionDays accountId
        (Function.update (s.retentionDays accountId) role days) } where
  issued := h.issued
  entryIssued := h.entryIssued
  selectedIssued := h.selectedIssued
  begunBefore := h.begunBefore
  account := h.account
  clock := h.clock
  stamp := h.stamp
  due := by
    intro w hw hmem m hm hmid
    obtain ⟨huse, before, hbefore, hdue⟩ := h.due w hw hmem m hm hmid
    refine ⟨huse, ?_⟩
    show ∃ days', Function.update s.retentionDays accountId
      (Function.update (s.retentionDays accountId) role days) m.accountId w.role = some days' ∧ _
    by_cases haccount : m.accountId = accountId
    · rw [haccount, Function.update_self]
      by_cases hrole : w.role = role
      · -- the period the sweep read is this one: it was not raised
        have hsweep : s.sweep.map Sweep.role = some role := by
          have hsome : s.sweep = some w := hw
          rw [hsome, Option.map_some, hrole]
        rw [haccount, hrole] at hbefore
        obtain ⟨after, rfl, hle⟩ := hp m hm hmid haccount hmem hsweep before hbefore
        rw [hrole, Function.update_self]
        exact ⟨after, rfl, le_trans (Nat.add_le_add_left (Nat.mul_le_mul_right _ hle) _) hdue⟩
      · rw [Function.update_of_ne hrole, ← haccount]
        exact ⟨before, hbefore, hdue⟩
    · rw [Function.update_of_ne haccount]
      exact ⟨before, hbefore, hdue⟩

/-- An undisturbed step keeps the clock of the mail. -/
theorem measured_step {l : Label} (h : Measured id s) (hp : Undisturbed id s l)
    (hst : step s l = some t) : Measured id t := by
  cases l with
  | tick elapsed =>
    cases hst
    exact h.tick elapsed
  | deliver accountId folderId => exact h.delivered hp hst
  | move i folderId =>
    cases hst
    exact h.moved hp
  | expunge i =>
    cases hst
    exact h.expunged i
  | resync old => exact h.resynced hp hst
  | setFolder folderId folder =>
    cases hst
    exact h.setFolder hp
  | setRetentionDays accountId role days =>
    cases hst
    exact h.setRetentionDays hp
  | beginSweep role =>
    simp only [step] at hst
    split at hst
    · cases hst
      exact h.beginSweep role
    · cases hst
  | stamp chosen =>
    simp only [step] at hst
    split at hst
    · next w hw =>
        split at hst
        · next hphase => exact h.stamped hw hphase hst
        · cases hst
    · cases hst
  | drop chosen =>
    simp only [step] at hst
    split at hst
    · next w hw =>
        split at hst
        · exact h.dropped hw hst
        · cases hst
    · cases hst
  | select =>
    simp only [step] at hst
    split at hst
    · next w hw =>
        split at hst
        · cases hst
          exact h.select hw
        · cases hst
    · cases hst
  | remove =>
    simp only [step] at hst
    split at hst
    · next w hw =>
        split at hst
        · next ids _ =>
            cases hst
            exact h.remove hw ids
        · cases hst
    · cases hst
  | abort =>
    simp only [step, Option.map_eq_some_iff] at hst
    obtain ⟨w, -, rfl⟩ := hst
    exact h.abort

theorem measured_of_reachable (h : system.Reachable (Undisturbed id) s) : Measured id s :=
  h.invariant (fun s' (hs : s' = Model.RetentionSweep.start) => hs ▸ measured_start id)
    (fun _ _ _ hinv hp hst => measured_step hinv hp hst)

theorem selected_of_removed {w : Sweep} {m m' : Message} (hw : s.sweep = some w)
    (hm : m ∈ s.messages.rows) (hlive : m.expungedAt = none) (hst : step s .remove = some t)
    (hm' : m' ∈ t.messages.rows) (hsame : m'.id = m.id) (hgone : m'.expungedAt ≠ none) :
    m.id ∈ selected s := by
  simp only [step, hw] at hst
  split at hst
  · next ids hphase =>
      cases hst
      have hselected : selected s = ids := by
        simp only [selected, hw, hphase]
      rw [hselected]
      obtain ⟨n, hn, rfl⟩ := (KeyedTable.mem_of_eq_update (u := (s.remove w ids).messages)
        (by exact fun _ => rfl) rfl).1 hm'
      split at hsame
      · next hmatch => exact hsame ▸ of_decide_eq_true hmatch
      · next hmiss =>
          rw [if_neg hmiss, s.messages.eq_of_key_eq hn hm hsame, hlive] at hgone
          exact absurd rfl hgone
  · cases hst

/-- In every run without a step that disturbs the clock of a mail, whenever a sweep expunges
it, it sits in a folder of the sweep's role and has for its account's period. -/
theorem expunged_in_time {w : Sweep} {m : Message}
    (h : system.Reachable (Undisturbed m.id) s) (hw : s.sweep = some w)
    (hm : m ∈ s.messages.rows) (hlive : m.expungedAt = none) (hst : step s .remove = some t)
    (hgone : ∃ m' ∈ t.messages.rows, m'.id = m.id ∧ m'.expungedAt ≠ none) :
    Rightful s w m := by
  have hinv := measured_of_reachable h
  obtain ⟨m', hm', hsame, hexpunged⟩ := hgone
  obtain ⟨huse, days, hdays, hdue⟩ := hinv.due w hw
    (selected_of_removed hw hm hlive hst hm' hsame hexpunged) m hm rfl
  exact ⟨huse, days, hdays, le_trans hdue (hinv.begunBefore w hw)⟩

end Claim

section Runs

/-- Trash in folder 5 for 30 days, and a mail that a first sweep has stamped there. -/
def stampedInTrash : List Label :=
  [.setFolder 5 ⟨some .trash, none⟩, .setRetentionDays 1 .trash (some 30), .deliver 1 5,
    .tick 10, .beginSweep .trash, .stamp [0], .drop [], .select, .remove, .tick 2678400]

def sweepTrash : List Label := [.beginSweep .trash, .stamp [], .drop [], .select]

/-- Steps of sweeps and of the clock, and any step of an empty mailbox. -/
def sweepsOnly (s : State) (l : Label) : Bool :=
  (match l with
    | .tick _ | .beginSweep _ | .stamp _ | .drop _ | .select | .remove | .abort => true
    | _ => false) ||
  (s.messages.rows.isEmpty && (entriesOf s).isEmpty && s.sweep.isNone)

theorem undisturbed_of_sweepsOnly {id : Uuid} {s : State} {l : Label}
    (h : sweepsOnly s l = true) : Undisturbed id s l := by
  have hempty : s.messages.rows.isEmpty && (entriesOf s).isEmpty && s.sweep.isNone →
      s.messages.rows = [] ∧ ∀ use since, ComesClean s id use since := by
    intro h
    simp only [Bool.and_eq_true, List.isEmpty_iff, Option.isNone_iff_eq_none] at h
    obtain ⟨⟨hrows, hentries⟩, hsweep⟩ := h
    refine ⟨hrows, fun use since => ⟨fun e he => ?_, fun started hstarted => ?_⟩⟩
    · rw [hentries] at he
      cases he
    · rw [stampTime, hsweep] at hstarted
      cases hstarted
  cases l with
  | tick _ | beginSweep _ | stamp _ | drop _ | select | remove | abort | expunge _ => trivial
  | deliver accountId folderId => exact fun _ => (hempty h).2 _ _
  | resync old | move i folderId =>
    intro _ m hm
    rw [(hempty h).1] at hm
    cases hm
  | setFolder folderId folder | setRetentionDays accountId role days =>
    intro m hm
    rw [(hempty h).1] at hm
    cases hm

theorem old_trash_is_expunged : ∃ (s : State) (w : Sweep) (m : Message),
    m ∈ s.messages.rows ∧ m.expungedAt = none ∧ (step s .remove).isSome ∧ Rightful s w m := by
  obtain ⟨s, t, w, hexec, hmeets, hst, hw, hm, hgone⟩ : ∃ (s t : State) (w : Sweep),
      system.exec Model.RetentionSweep.start (stampedInTrash ++ sweepTrash) = some s ∧
      system.execMeets (fun s l => sweepsOnly s l = true) Model.RetentionSweep.start
        (stampedInTrash ++ sweepTrash) = true ∧
      step s .remove = some t ∧ s.sweep = some w ∧ (⟨0, 1, 5, none, 0⟩ : Message) ∈ s.messages.rows ∧
      (⟨0, 1, 5, some 2678410, 0⟩ : Message) ∈ t.messages.rows :=
    ⟨_, _, _, rfl, rfl, rfl, rfl, List.mem_singleton_self _, List.mem_singleton_self _⟩
  have hreach : system.Reachable (Undisturbed 0) s :=
    (TransitionSystem.reachable_of_exec (P := fun s l => sweepsOnly s l = true) _ rfl hmeets
      hexec).mono fun s l h => undisturbed_of_sweepsOnly h
  refine ⟨s, w, _, hm, rfl, ?_, expunged_in_time hreach hw hm rfl hst
    ⟨_, hgone, rfl, fun h => by cases h⟩⟩
  rw [hst]
  rfl

/-- A mail that was taken out and put back between two sweeps is expunged at once, and so is
one that was taken out after the sweep selected it. -/
theorem returned_and_rescued_are_expunged :
    (∃ (s t : State) (w : Sweep) (m : Message), system.Reachable TransitionSystem.anyStep s ∧
      s.sweep = some w ∧ m ∈ s.messages.rows ∧ m.expungedAt = none ∧
      step s .remove = some t ∧ (∃ m' ∈ t.messages.rows, m'.id = m.id ∧ m'.expungedAt ≠ none) ∧
      s.use m.folderId = some w.role.use ∧ ¬ Rightful s w m) ∧
    ∃ (s t : State) (w : Sweep) (m : Message), system.Reachable TransitionSystem.anyStep s ∧
      s.sweep = some w ∧ m ∈ s.messages.rows ∧ m.expungedAt = none ∧
      step s .remove = some t ∧ (∃ m' ∈ t.messages.rows, m'.id = m.id ∧ m'.expungedAt ≠ none) ∧
      s.use m.folderId ≠ some w.role.use := by
  constructor
  · obtain ⟨s, t, w, hexec, hst, hw, hm, hgone, huse, hdays, hnow⟩ : ∃ (s t : State) (w : Sweep),
        system.exec Model.RetentionSweep.start
          (stampedInTrash ++ [.move 0 6, .move 0 5] ++ sweepTrash) = some s ∧
        step s .remove = some t ∧ s.sweep = some w ∧
        (⟨0, 1, 5, none, 2678410⟩ : Message) ∈ s.messages.rows ∧
        (⟨0, 1, 5, some 2678410, 2678410⟩ : Message) ∈ t.messages.rows ∧
        s.use 5 = some w.role.use ∧ s.retentionDays 1 w.role = some 30 ∧ s.now = 2678410 :=
      ⟨_, _, _, rfl, rfl, rfl, List.mem_singleton_self _, List.mem_singleton_self _, rfl, rfl, rfl⟩
    refine ⟨s, t, w, _, TransitionSystem.reachable_of_exec_any _ rfl hexec, hw, hm, rfl, hst,
      ⟨_, hgone, rfl, fun h => by cases h⟩, huse, ?_⟩
    rintro ⟨-, days, hsome, hlong⟩
    rw [hdays] at hsome
    cases hsome
    rw [hnow] at hlong
    revert hlong
    decide
  · obtain ⟨s, t, w, hexec, hst, hw, hm, hgone, huse⟩ : ∃ (s t : State) (w : Sweep),
        system.exec Model.RetentionSweep.start
          (stampedInTrash ++ sweepTrash ++ [.move 0 6]) = some s ∧
        step s .remove = some t ∧ s.sweep = some w ∧
        (⟨0, 1, 6, none, 2678410⟩ : Message) ∈ s.messages.rows ∧
        (⟨0, 1, 6, some 2678410, 2678410⟩ : Message) ∈ t.messages.rows ∧
        s.use 6 ≠ some w.role.use :=
      ⟨_, _, _, rfl, rfl, rfl, List.mem_singleton_self _, List.mem_singleton_self _, by decide⟩
    exact ⟨s, t, w, _, TransitionSystem.reachable_of_exec_any _ rfl hexec, hw, hm, rfl, hst,
      ⟨_, hgone, rfl, fun h => by cases h⟩, huse⟩

end Runs

end MailVerdict.Analysis.RetentionClock
