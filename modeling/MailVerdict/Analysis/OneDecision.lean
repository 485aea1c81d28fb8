import MailVerdict.Model.OrderIntake

/-!
# One mail, one decision

The gate keeps a mail from being decided twice as long as every place derives the same key
for it. With a Message-ID header all of them do. Without one, the follow-up hook keys on
the row id, which is another one after a resync, and on no key the others derive.

A decided job keeps its gate closed: nothing puts it back into the queue except a claim
that was not completed. Such a job is decided again if its mail is not in the register,
and a mail that was detached in the meantime is not.

`Undisturbed` excludes these two steps for one mail. `Home` names the gate all decisions
of the mail go through, and in every run without them there is only one
(`one_decision_each`).
-/

namespace MailVerdict.Analysis.OneDecision

open MailVerdict.Computation
open Model.Glacier (Platform Uuid computeMsgKey)
open Model.OrderIntake

def HasHeader (m : Mail) : Prop := m.messageId.getD "" ≠ ""

instance (m : Mail) : Decidable (HasHeader m) := inferInstanceAs (Decidable (_ ≠ _))

def jobsOf (m : Mail) (s : State) : List OrderJob :=
  s.jobs.rows.filter fun j => decide (m ∈ j.mails)

def rowsOf (m : Mail) (s : State) : List OrderMail :=
  s.orderMails.rows.filter fun r => decide (r.mail = m)

structure OneEach (m : Mail) (s : State) : Prop where
  job : (jobsOf m s).length ≤ 1
  register : (rowsOf m s).length ≤ 1
  detached : m ∈ s.detached → rowsOf m s = []

/-- The step does not enqueue the mail, if it has no header, under another key than the
job it has, and does not take up a job for it that was decided before the mail was detached. -/
def Undisturbed (P : Platform) (m : Mail) (s : State) : Label → Prop
  | .enqueue i => i.row.mail = m → ¬HasHeader m → ∀ j ∈ jobsOf m s, j.msgKey = i.msgKey P
  | .begin g _ => m ∈ s.detached → ∀ j ∈ s.jobs.rows, j.gate = g → j.decided = true →
      ∀ row, s.loadOrderMail j = some row → row.mail ≠ m
  | _ => True

section Keys

variable (P : Platform) {i : Intake}

theorem msgKey_of_header {m : Mail} (h : HasHeader m) :
    m.msgKey P = m.messageId.getD "" := by
  rw [Mail.msgKey, computeMsgKey]
  exact if_pos h

theorem computeMsgKey_ne_empty (m : Mail) : m.msgKey P ≠ "" := by
  rw [Mail.msgKey, computeMsgKey]
  split
  · assumption
  · simp

theorem followUpKey_ne_empty (row : Message) : followUpKey row ≠ "" := by
  rw [followUpKey]
  split
  · assumption
  · exact Nat.repr_ne_empty

theorem intake_msgKey_ne_empty (i : Intake) : i.msgKey P ≠ "" := by
  rw [Intake.msgKey]
  split
  · exact computeMsgKey_ne_empty P _
  · exact computeMsgKey_ne_empty P _
  · exact followUpKey_ne_empty _

theorem intake_msgKey_of_header (h : HasHeader i.row.mail) :
    i.msgKey P = i.row.mail.messageId.getD "" := by
  rw [Intake.msgKey]
  split
  · exact msgKey_of_header P h
  · exact msgKey_of_header P h
  · exact if_pos h

end Keys

section Ids

variable {s t : State}

/-- A row id names one mail: what was read of it, and what was enqueued under it. -/
structure Known (s : State) : Prop where
  row : ∀ m ∈ s.messages.rows, m.id < s.nextId
  intake : ∀ i ∈ s.intakes, i.row.id < s.nextId ∧
    ∀ m ∈ s.messages.rows, m.id = i.row.id → m.mail = i.row.mail
  job : ∀ j ∈ s.jobs.rows, j.msgKey ≠ "" ∧ j.messageId < s.nextId ∧
    ∀ m ∈ s.messages.rows, m.id = j.messageId → m.mail ∈ j.mails

abbrev Jobs := KeyedTable OrderJob.gate

/-- The jobs of two tables are the same, status and decision apart. -/
structure SameJobs (a b : Jobs) : Prop where
  kept : ∀ j ∈ a.rows, ∃ j' ∈ b.rows, j'.gate = j.gate ∧ j'.mails = j.mails ∧
    (j.decided = true → j'.decided = true)
  old : ∀ j ∈ b.rows, ∃ j' ∈ a.rows, j'.gate = j.gate ∧ j'.mails = j.mails ∧
    j'.messageId = j.messageId

theorem SameJobs.of_eq {a b : Jobs} (h : b = a) : SameJobs a b where
  kept j hj := ⟨j, h ▸ hj, rfl, rfl, id⟩
  old j hj := ⟨j, h ▸ hj, rfl, rfl, rfl⟩

theorem SameJobs.of_update {a b : Jobs} {p : OrderJob → Bool} {f : OrderJob → OrderJob}
    (hf : ∀ j, (f j).gate = j.gate) (h : b = a.update p f hf)
    (hmails : ∀ j, (f j).mails = j.mails) (hid : ∀ j, (f j).messageId = j.messageId)
    (hdecided : ∀ j, j.decided = true → (f j).decided = true) : SameJobs a b where
  kept j hj := by
    refine ⟨if p j then f j else j, ?_, ?_⟩
    · rw [h]
      exact KeyedTable.mem_update.2 ⟨j, hj, rfl⟩
    · split
      · exact ⟨hf j, hmails j, hdecided j⟩
      · exact ⟨rfl, rfl, id⟩
  old j hj := by
    rw [h] at hj
    obtain ⟨j', hj', rfl⟩ := KeyedTable.mem_update.1 hj
    refine ⟨j', hj', ?_⟩
    split
    · exact ⟨(hf j').symm, (hmails j').symm, (hid j').symm⟩
    · exact ⟨rfl, rfl, rfl⟩

/-- A row of the mailbox after a step: it was there, or its id is new. -/
def RowsKnown (s t : State) : Prop :=
  ∀ m ∈ t.messages.rows, (∃ m' ∈ s.messages.rows, m'.id = m.id ∧ m'.mail = m.mail) ∨
    (s.nextId ≤ m.id ∧ m.id < t.nextId)

theorem Known.kept (h : Known s) (hrows : RowsKnown s t) (hnext : s.nextId ≤ t.nextId)
    (hintakes : ∀ i ∈ t.intakes, i ∈ s.intakes) (hjobs : SameJobs s.jobs t.jobs) : Known t where
  row m hm := by
    obtain ⟨m', hm', hid, -⟩ | ⟨-, hnew⟩ := hrows m hm
    · rw [← hid]
      exact lt_of_lt_of_le (h.row m' hm') hnext
    · exact hnew
  intake i hi := by
    obtain ⟨hlt, hmail⟩ := h.intake i (hintakes i hi)
    refine ⟨lt_of_lt_of_le hlt hnext, fun m hm hid => ?_⟩
    obtain ⟨m', hm', hid', hmail'⟩ | ⟨hnew, -⟩ := hrows m hm
    · rw [← hmail']
      exact hmail m' hm' (hid'.trans hid)
    · rw [hid] at hnew
      exact absurd hlt (Nat.not_lt.2 hnew)
  job j hj := by
    obtain ⟨j', hj', hgate, hmails, hid⟩ := hjobs.old j hj
    obtain ⟨hkey, hlt, hmail⟩ := h.job j' hj'
    rw [← hid, ← hmails]
    refine ⟨?_, lt_of_lt_of_le hlt hnext, fun m hm hrow => ?_⟩
    · have hsame : j'.msgKey = j.msgKey := congrArg Prod.snd hgate
      rwa [← hsame]
    · obtain ⟨m', hm', hid', hmail'⟩ | ⟨hnew, -⟩ := hrows m hm
      · rw [← hmail']
        exact hmail m' hm' (hid'.trans hrow)
      · rw [hrow] at hnew
        exact absurd hlt (Nat.not_lt.2 hnew)

theorem RowsKnown.of_eq (h : t.messages = s.messages) : RowsKnown s t :=
  fun m hm => Or.inl ⟨m, h ▸ hm, rfl, rfl⟩

end Ids

section Homes

variable {m : Mail} {a b : Jobs} {s t : State} {g g' : Gate}

structure Home (m : Mail) (jobs : Jobs) (g : Gate) : Prop where
  account : g.1 = m.accountId
  header : HasHeader m → g.2 = m.messageId.getD ""
  job : ¬HasHeader m → ∃ j ∈ jobs.rows, m ∈ j.mails ∧ j.msgKey = g.2

theorem Home.mono (h : Home m a g)
    (hkept : ∀ j ∈ a.rows, ∃ j' ∈ b.rows, j'.gate = j.gate ∧ (m ∈ j.mails → m ∈ j'.mails)) :
    Home m b g where
  account := h.account
  header := h.header
  job hheader := by
    obtain ⟨j, hj, hm, hkey⟩ := h.job hheader
    obtain ⟨j', hj', hgate, hmail⟩ := hkept j hj
    exact ⟨j', hj', hmail hm, (congrArg Prod.snd hgate).trans hkey⟩

theorem SameJobs.home (h : SameJobs s.jobs t.jobs) (hg : Home m s.jobs g) : Home m t.jobs g :=
  hg.mono fun j hj =>
    let ⟨j', hj', hgate, hmails, _⟩ := h.kept j hj
    ⟨j', hj', hgate, fun hm => hmails ▸ hm⟩

theorem SameJobs.home_back (h : SameJobs s.jobs t.jobs) (hg : Home m t.jobs g) : Home m s.jobs g :=
  hg.mono fun j hj =>
    let ⟨j', hj', hgate, hmails, _⟩ := h.old j hj
    ⟨j', hj', hgate, fun hm => hmails ▸ hm⟩

structure Settled (m : Mail) (s : State) : Prop where
  home : ∀ j ∈ s.jobs.rows, m ∈ j.mails → Home m s.jobs j.gate
  one : ∀ g g', Home m s.jobs g → Home m s.jobs g' → g = g'
  register : ∀ r ∈ s.orderMails.rows, r.mail = m → Home m s.jobs r.gate
  ran : ∀ r ∈ s.orderMails.rows, ∃ j ∈ s.jobs.rows, j.gate = r.gate ∧ j.decided = true
  open_ : ∀ x, s.tx = some x → (∃ j ∈ s.jobs.rows, j.gate = x.gate) ∧
    (∀ r ∈ s.orderMails.rows, r.gate ≠ x.gate) ∧
    (x.row.mail = m → Home m s.jobs x.gate ∧ m ∉ s.detached)
  detached : m ∈ s.detached → (∀ r ∈ s.orderMails.rows, r.mail ≠ m) ∧
    ∃ j ∈ s.jobs.rows, j.decided = true ∧ Home m s.jobs j.gate

theorem Settled.kept (h : Settled m s) (hjobs : SameJobs s.jobs t.jobs)
    (hrows : ∀ r ∈ t.orderMails.rows, ∃ r' ∈ s.orderMails.rows, r'.gate = r.gate ∧ r'.mail = r.mail)
    (htx : ∀ x, t.tx = some x → s.tx = some x) (hdetached : t.detached = s.detached) :
    Settled m t where
  home j hj hm := by
    obtain ⟨j', hj', hgate, hmails, -⟩ := hjobs.old j hj
    rw [← hgate]
    rw [← hmails] at hm
    exact hjobs.home (h.home j' hj' hm)
  one g g' hg hg' := h.one g g' (hjobs.home_back hg) (hjobs.home_back hg')
  register r hr hm := by
    obtain ⟨r', hr', hgate, hmail⟩ := hrows r hr
    rw [← hgate]
    exact hjobs.home (h.register r' hr' (hmail.trans hm))
  ran r hr := by
    obtain ⟨r', hr', hgate, -⟩ := hrows r hr
    obtain ⟨j, hj, hjgate, hdecided⟩ := h.ran r' hr'
    obtain ⟨j', hj', hgate', -, hkept⟩ := hjobs.kept j hj
    exact ⟨j', hj', hgate'.trans (hjgate.trans hgate), hkept hdecided⟩
  open_ x hx := by
    obtain ⟨⟨j, hj, hjgate⟩, hfree, hmail⟩ := h.open_ x (htx x hx)
    obtain ⟨j', hj', hgate', -⟩ := hjobs.kept j hj
    refine ⟨⟨j', hj', hgate'.trans hjgate⟩, fun r hr => ?_, fun hm => ?_⟩
    · obtain ⟨r', hr', hgate, -⟩ := hrows r hr
      rw [← hgate]
      exact hfree r' hr'
    · rw [hdetached]
      exact ⟨hjobs.home (hmail hm).1, (hmail hm).2⟩
  detached hm := by
    rw [hdetached] at hm
    obtain ⟨hgone, j, hj, hdecided, hhome⟩ := h.detached hm
    refine ⟨fun r hr => ?_, ?_⟩
    · obtain ⟨r', hr', -, hmail⟩ := hrows r hr
      rw [← hmail]
      exact hgone r' hr'
    · obtain ⟨j', hj', hgate, -, hkept⟩ := hjobs.kept j hj
      exact ⟨j', hj', hkept hdecided, hgate ▸ hjobs.home hhome⟩

end Homes

structure Inv (m : Mail) (s : State) : Prop where
  known : Known s
  settled : Settled m s

theorem home_start (m : Mail) {g : Gate} (h : Home m Model.OrderIntake.start.jobs g) :
    g = (m.accountId, m.messageId.getD "") := by
  refine Prod.ext h.account ?_
  by_cases hheader : HasHeader m
  · exact h.header hheader
  · obtain ⟨j, hj, -⟩ := h.job hheader
    cases hj

theorem settled_start (m : Mail) : Settled m Model.OrderIntake.start where
  home := by
    intro j hj
    cases hj
  one g g' hg hg' := (home_start m hg).trans (home_start m hg').symm
  register := by
    intro r hr
    cases hr
  ran := by
    intro r hr
    cases hr
  open_ := by
    intro x hx
    cases hx
  detached := by
    intro hm
    cases hm

theorem known_start : Known Model.OrderIntake.start where
  row := by
    intro m hm
    cases hm
  intake := by
    intro i hi
    cases hi
  job := by
    intro j hj
    cases hj

section Steps

variable {P : Platform} {m : Mail} {s t : State}

/-- A step that decides nothing: the jobs stay but for their status, the register only
loses rows or moves them. -/
structure Plain (s t : State) : Prop where
  rows : RowsKnown s t
  next : s.nextId ≤ t.nextId
  intakes : ∀ i ∈ t.intakes, i ∈ s.intakes
  jobs : SameJobs s.jobs t.jobs
  register : ∀ r ∈ t.orderMails.rows,
    ∃ r' ∈ s.orderMails.rows, r'.gate = r.gate ∧ r'.mail = r.mail
  tx : ∀ x, t.tx = some x → s.tx = some x
  detached : t.detached = s.detached

theorem Inv.plain (h : Inv m s) (hp : Plain s t) : Inv m t where
  known := h.known.kept hp.rows hp.next hp.intakes hp.jobs
  settled := h.settled.kept hp.jobs hp.register hp.tx hp.detached

theorem Plain.mailbox (hrows : RowsKnown s t) (hnext : s.nextId ≤ t.nextId)
    (hintakes : t.intakes = s.intakes) (hjobs : t.jobs = s.jobs)
    (hregister : t.orderMails = s.orderMails) (htx : t.tx = s.tx)
    (hdetached : t.detached = s.detached) : Plain s t where
  rows := hrows
  next := hnext
  intakes _ hi := hintakes ▸ hi
  jobs := .of_eq hjobs
  register r hr := ⟨r, hregister ▸ hr, rfl, rfl⟩
  tx _ hx := htx ▸ hx
  detached := hdetached

theorem Plain.queue (hjobs : SameJobs s.jobs t.jobs) (hmessages : t.messages = s.messages)
    (hnext : t.nextId = s.nextId) (hintakes : t.intakes = s.intakes)
    (hregister : t.orderMails = s.orderMails) (htx : ∀ x, t.tx = some x → s.tx = some x)
    (hdetached : t.detached = s.detached) : Plain s t where
  rows := .of_eq hmessages
  next := by rw [hnext]
  intakes _ hi := hintakes ▸ hi
  jobs := hjobs
  register r hr := ⟨r, hregister ▸ hr, rfl, rfl⟩
  tx := htx
  detached := hdetached

theorem Plain.order (hregister : ∀ r ∈ t.orderMails.rows,
      ∃ r' ∈ s.orderMails.rows, r'.gate = r.gate ∧ r'.mail = r.mail)
    (hmessages : t.messages = s.messages) (hnext : t.nextId = s.nextId)
    (hintakes : t.intakes = s.intakes) (hjobs : t.jobs = s.jobs) (htx : t.tx = s.tx)
    (hdetached : t.detached = s.detached) : Plain s t where
  rows := .of_eq hmessages
  next := by rw [hnext]
  intakes _ hi := hintakes ▸ hi
  jobs := .of_eq hjobs
  register := hregister
  tx _ hx := htx ▸ hx
  detached := hdetached

/-! ## The mailbox -/

theorem plain_addMessage {mail : Mail} {use : Option SpecialUse} {threadId : Option Uuid}
    {isDraft : Bool} (h : s.addMessage mail use threadId isDraft = some t) : Plain s t := by
  rw [State.addMessage] at h
  split at h
  next hfresh =>
    simp only [Option.some.injEq] at h
    subst h
    refine .mailbox (fun m hm => ?_) (Nat.le_succ _) rfl rfl rfl rfl rfl
    obtain hold | rfl := (KeyedTable.mem_insert (t := s.messages) hfresh).1 hm
    · exact Or.inl ⟨m, hold, rfl, rfl⟩
    · exact Or.inr ⟨le_rfl, Nat.lt_succ_self _⟩
  next => cases h

theorem plain_erase (id : Uuid) : Plain s { s with messages := s.messages.erase id } := by
  refine .mailbox (fun m hm => Or.inl ⟨m, ?_, rfl, rfl⟩) le_rfl rfl rfl rfl rfl rfl
  exact (KeyedTable.mem_erase.1 hm).1

theorem Plain.trans {u : State} (h : Plain s t) (h' : Plain t u) (hnext : t.nextId = s.nextId)
    (hjobs : t.jobs = s.jobs) (hregister : t.orderMails = s.orderMails) : Plain s u where
  rows m hm := by
    obtain ⟨m', hm', hid, hmail⟩ | hnew := h'.rows m hm
    · obtain ⟨m'', hm'', hid', hmail'⟩ | ⟨hge, hlt⟩ := h.rows m' hm'
      · exact Or.inl ⟨m'', hm'', hid'.trans hid, hmail'.trans hmail⟩
      · rw [hnext] at hlt
        exact absurd hlt (Nat.not_lt.2 hge)
    · rw [hnext] at hnew
      exact Or.inr hnew
  next := h.next.trans h'.next
  intakes i hi := h.intakes i (h'.intakes i hi)
  jobs :=
    { kept := fun j hj => h'.jobs.kept j (hjobs ▸ hj)
      old := fun j hj => hjobs ▸ h'.jobs.old j hj }
  register r hr := hregister ▸ h'.register r hr
  tx x hx := h.tx x (h'.tx x hx)
  detached := h'.detached.trans h.detached

theorem plain_resync {id : Uuid} (h : s.resync id = some t) : Plain s t := by
  obtain ⟨m, -, hadd⟩ := Option.bind_eq_some_iff.1 h
  exact (plain_erase id).trans (plain_addMessage hadd) rfl rfl rfl

theorem plain_updateMessage (id : Uuid) (f : Message → Message) (hf : ∀ m, (f m).id = m.id)
    (hmail : ∀ m, (f m).mail = m.mail) : Plain s (s.updateMessage id f hf) := by
  refine .mailbox (fun m hm => ?_) le_rfl rfl rfl rfl rfl rfl
  obtain ⟨m', hm', rfl⟩ := (KeyedTable.mem_of_eq_update hf rfl).1 hm
  refine Or.inl ⟨m', hm', ?_⟩
  split
  · exact ⟨(hf m').symm, (hmail m').symm⟩
  · exact ⟨rfl, rfl⟩

/-! ## The queue -/

theorem plain_setStatus (g : Gate) (status : JobStatus) : Plain s (s.setStatus g status) :=
  .queue (.of_update (by exact fun _ => rfl) rfl (fun _ => rfl) (fun _ => rfl) fun _ => id)
    rfl rfl rfl rfl (fun _ => id) rfl

theorem plain_change {g : Gate} {before after : JobStatus}
    (h : s.change g before after = some t) : Plain s t := by
  obtain ⟨j, -, hset⟩ := Option.bind_eq_some_iff.1 h
  split at hset
  · simp only [Option.some.injEq] at hset
    subst hset
    exact plain_setStatus g after
  · cases hset

theorem plain_setDecided (g : Gate) : Plain s (s.setDecided g) :=
  .queue (.of_update (by exact fun _ => rfl) rfl (fun _ => rfl) (fun _ => rfl) fun _ _ => rfl)
    rfl rfl rfl rfl (fun _ => id) rfl

/-! ## The register -/

theorem plain_updateControls (o : Uuid) (isSealed : Bool) :
    Plain s (s.updateControls o isSealed) :=
  .order (fun r hr => ⟨r, hr, rfl, rfl⟩) rfl rfl rfl rfl rfl rfl

theorem plain_deleteOrder (o : Uuid) : Plain s (s.deleteOrder o) :=
  .order (fun r hr => ⟨r, (KeyedTable.mem_filter.1 hr).1, rfl, rfl⟩) rfl rfl rfl rfl rfl rfl

theorem plain_mergeOrder {source target : Uuid} (h : s.mergeOrder source target = some t) :
    Plain s t := by
  rw [State.mergeOrder] at h
  split at h
  · simp only [Option.some.injEq] at h
    subst h
    refine .order (fun r hr => ?_) rfl rfl rfl rfl rfl rfl
    obtain ⟨r', hr', rfl⟩ := (KeyedTable.mem_of_eq_update (by exact fun _ => rfl) rfl).1
      (KeyedTable.mem_filter.1 hr).1
    refine ⟨r', hr', ?_⟩
    split <;> exact ⟨rfl, rfl⟩
  · cases h

theorem mem_attachMail {r r' : OrderMail} (h : r' ∈ (s.attachMail r).orderMails.rows) :
    r' ∈ s.orderMails.rows ∨ r' = r := by
  rw [State.attachMail] at h
  split at h
  next => exact Or.inl h
  next hfresh => exact (KeyedTable.mem_insert hfresh).1 h

/-! ## Enqueuing -/

def gateOf (P : Platform) (i : Intake) : Gate := (i.row.mail.accountId, i.msgKey P)

theorem enqueue_kept (i : Intake) {j : OrderJob} (hj : j ∈ s.jobs.rows) :
    ∃ j' ∈ (s.enqueue P i).jobs.rows, j'.gate = j.gate ∧ (∀ m ∈ j.mails, m ∈ j'.mails) ∧
      (j.decided = true → j'.decided = true) := by
  rw [State.enqueue]
  split
  · refine ⟨_, (KeyedTable.mem_of_eq_update (by exact fun _ => rfl) rfl).2 ⟨j, hj, rfl⟩, ?_⟩
    split
    · exact ⟨rfl, fun m hm => List.mem_cons_of_mem _ hm, id⟩
    · exact ⟨rfl, fun m hm => hm, id⟩
  next hfresh =>
    exact ⟨j, (KeyedTable.mem_insert hfresh).2 (Or.inl hj), rfl, fun m hm => hm, id⟩

theorem enqueue_old {i : Intake} {j : OrderJob} (hj : j ∈ (s.enqueue P i).jobs.rows) :
    (∃ j' ∈ s.jobs.rows, j'.gate = j.gate ∧ j'.messageId = j.messageId ∧
      ∀ m ∈ j'.mails, m ∈ j.mails) ∨
    (j.gate = gateOf P i ∧ j.messageId = i.row.id ∧ i.row.mail ∈ j.mails) := by
  rw [State.enqueue] at hj
  split at hj
  · obtain ⟨j', hj', rfl⟩ := (KeyedTable.mem_of_eq_update (by exact fun _ => rfl) rfl).1 hj
    split
    next hgate =>
      by_cases hcatchup : i.origin = .catchup
      · refine Or.inl ⟨j', hj', rfl, ?_, fun m hm => List.mem_cons_of_mem _ hm⟩
        exact (if_pos hcatchup).symm
      · exact Or.inr ⟨of_decide_eq_true hgate, if_neg hcatchup, List.mem_cons_self⟩
    · exact Or.inl ⟨j', hj', rfl, rfl, fun m hm => hm⟩
  next hfresh =>
    obtain hold | rfl := (KeyedTable.mem_insert hfresh).1 hj
    · exact Or.inl ⟨j, hold, rfl, rfl, fun m hm => hm⟩
    · exact Or.inr ⟨rfl, rfl, List.mem_singleton.2 rfl⟩

theorem enqueue_mails {i : Intake} {j : OrderJob} (hj : j ∈ (s.enqueue P i).jobs.rows)
    (hm : m ∈ j.mails) :
    (∃ j' ∈ s.jobs.rows, j'.gate = j.gate ∧ m ∈ j'.mails) ∨
      (j.gate = gateOf P i ∧ i.row.mail = m) := by
  rw [State.enqueue] at hj
  split at hj
  · obtain ⟨j', hj', rfl⟩ := (KeyedTable.mem_of_eq_update (by exact fun _ => rfl) rfl).1 hj
    split at hm
    next hgate =>
      rw [if_pos hgate]
      obtain rfl | hold := List.mem_cons.1 hm
      · exact Or.inr ⟨of_decide_eq_true hgate, rfl⟩
      · exact Or.inl ⟨j', hj', rfl, hold⟩
    next hgate =>
      rw [if_neg hgate]
      exact Or.inl ⟨j', hj', rfl, hm⟩
  next hfresh =>
    obtain hold | rfl := (KeyedTable.mem_insert hfresh).1 hj
    · exact Or.inl ⟨j, hold, rfl, hm⟩
    · exact Or.inr ⟨rfl, (List.mem_singleton.1 hm).symm⟩

theorem enqueue_rest (P : Platform) (s : State) (i : Intake) :
    (s.enqueue P i).messages = s.messages ∧ (s.enqueue P i).nextId = s.nextId ∧
      (s.enqueue P i).intakes = s.intakes.erase i ∧
      (s.enqueue P i).orderMails = s.orderMails ∧ (s.enqueue P i).tx = s.tx ∧
      (s.enqueue P i).detached = s.detached := by
  rw [State.enqueue]
  split <;> exact ⟨rfl, rfl, rfl, rfl, rfl, rfl⟩

theorem Known.enqueue (h : Known s) {i : Intake} (hi : i ∈ s.intakes) :
    Known (s.enqueue P i) := by
  obtain ⟨hmessages, hnext, hintakes, -⟩ := enqueue_rest P s i
  refine ⟨fun m hm => ?_, fun i' hi' => ?_, fun j hj => ?_⟩
  · rw [hmessages] at hm
    rw [hnext]
    exact h.row m hm
  · rw [hintakes] at hi'
    rw [hmessages, hnext]
    exact h.intake i' (List.mem_of_mem_erase hi')
  · rw [hmessages, hnext]
    obtain ⟨j', hj', hgate, hid, hmails⟩ | ⟨hgate, hid, hmail⟩ := enqueue_old hj
    · obtain ⟨hkey, hlt, hrow⟩ := h.job j' hj'
      have hsame : j'.msgKey = j.msgKey := congrArg Prod.snd hgate
      rw [← hid, ← hsame]
      exact ⟨hkey, hlt, fun m hm hm' => hmails _ (hrow m hm hm')⟩
    · obtain ⟨hlt, hrow⟩ := h.intake i hi
      have hkey : j.msgKey = i.msgKey P := congrArg Prod.snd hgate
      rw [hid, hkey]
      exact ⟨intake_msgKey_ne_empty P i, hlt, fun m hm hm' => (hrow m hm hm').symm ▸ hmail⟩

theorem home_enqueue {i : Intake} {g : Gate} (h : Home m s.jobs g) : Home m (s.enqueue P i).jobs g :=
  h.mono fun _ hj =>
    let ⟨j', hj', hgate, hmails, _⟩ := enqueue_kept i hj
    ⟨j', hj', hgate, hmails m⟩

theorem home_of_job {j : OrderJob} (hj : j ∈ s.jobs.rows) (hm : m ∈ j.mails) {i : Intake}
    (hgate : j.gate = gateOf P i) (hmail : i.row.mail = m) : Home m s.jobs j.gate where
  account := by
    rw [hgate, ← hmail]
    rfl
  header hheader := by
    rw [hgate, ← hmail]
    exact intake_msgKey_of_header P (by rwa [hmail])
  job _ := ⟨j, hj, hm, rfl⟩

/-- An arrival enqueued undisturbed leaves the mail with its one gate. -/
theorem Settled.enqueue (h : Settled m s) {i : Intake}
    (hp : Undisturbed P m s (.enqueue i)) : Settled m (s.enqueue P i) := by
  obtain ⟨-, -, -, hregister, htx, hdetached⟩ := enqueue_rest P s i
  have hhome : ∀ j ∈ (s.enqueue P i).jobs.rows, m ∈ j.mails → Home m (s.enqueue P i).jobs j.gate := by
    intro j hj hm
    obtain ⟨j', hj', hgate, hm'⟩ | ⟨hgate, hmail⟩ := enqueue_mails hj hm
    · rw [← hgate]
      exact home_enqueue (h.home j' hj' hm')
    · exact home_of_job hj hm hgate hmail
  -- without a header the key of every job of the mail is that of an old one, or all are new
  have hkey : ¬HasHeader m → ∀ j ∈ (s.enqueue P i).jobs.rows, m ∈ j.mails →
      ∀ j' ∈ (s.enqueue P i).jobs.rows, m ∈ j'.mails → j.msgKey = j'.msgKey := by
    intro hheader _ hj hm _ hj' hm'
    have hold : ∀ o ∈ s.jobs.rows, m ∈ o.mails → ∀ o' ∈ s.jobs.rows, m ∈ o'.mails →
        o.msgKey = o'.msgKey := fun o ho hmo o' ho' hmo' =>
      congrArg Prod.snd (h.one _ _ (h.home o ho hmo) (h.home o' ho' hmo'))
    have hnew : i.row.mail = m → ∀ o ∈ s.jobs.rows, m ∈ o.mails → o.msgKey = i.msgKey P :=
      fun hmail o ho hmo => hp hmail hheader o (List.mem_filter.2 ⟨ho, decide_eq_true hmo⟩)
    obtain ⟨o, ho, hgate, hmo⟩ | ⟨hgate, hmail⟩ := enqueue_mails hj hm <;>
      obtain ⟨o', ho', hgate', hmo'⟩ | ⟨hgate', hmail'⟩ := enqueue_mails hj' hm'
    · exact (congrArg Prod.snd hgate).symm.trans
        ((hold o ho hmo o' ho' hmo').trans (congrArg Prod.snd hgate'))
    · exact (congrArg Prod.snd hgate).symm.trans
        ((hnew hmail' o ho hmo).trans (congrArg Prod.snd hgate').symm)
    · exact (congrArg Prod.snd hgate).trans
        ((hnew hmail o' ho' hmo').symm.trans (congrArg Prod.snd hgate'))
    · exact (congrArg Prod.snd hgate).trans (congrArg Prod.snd hgate').symm
  exact
    { home := hhome
      one := by
        intro g g' hg hg'
        refine Prod.ext (hg.account.trans hg'.account.symm) ?_
        by_cases hheader : HasHeader m
        · exact (hg.header hheader).trans (hg'.header hheader).symm
        · obtain ⟨j, hj, hm, hjkey⟩ := hg.job hheader
          obtain ⟨j', hj', hm', hjkey'⟩ := hg'.job hheader
          exact hjkey.symm.trans ((hkey hheader j hj hm j' hj' hm').trans hjkey')
      register := by
        intro r hr hm
        rw [hregister] at hr
        exact home_enqueue (h.register r hr hm)
      ran := by
        intro r hr
        rw [hregister] at hr
        obtain ⟨j, hj, hgate, hdecided⟩ := h.ran r hr
        obtain ⟨j', hj', hgate', -, hkept⟩ := enqueue_kept (P := P) i hj
        exact ⟨j', hj', hgate'.trans hgate, hkept hdecided⟩
      open_ := by
        intro x hx
        rw [htx] at hx
        obtain ⟨⟨j, hj, hgate⟩, hfree, hmail⟩ := h.open_ x hx
        obtain ⟨j', hj', hgate', -⟩ := enqueue_kept (P := P) i hj
        rw [hregister, hdetached]
        exact ⟨⟨j', hj', hgate'.trans hgate⟩, hfree, fun hm =>
          ⟨home_enqueue (hmail hm).1, (hmail hm).2⟩⟩
      detached := by
        intro hm
        rw [hdetached] at hm
        obtain ⟨hgone, j, hj, hdecided, hjhome⟩ := h.detached hm
        obtain ⟨j', hj', hgate', -, hkept⟩ := enqueue_kept (P := P) i hj
        rw [hregister]
        exact ⟨hgone, j', hj', hkept hdecided, hgate' ▸ home_enqueue hjhome⟩ }

theorem Inv.read (h : Inv m s) {origin : Origin} {id : Uuid}
    (hread : s.read P origin id = some t) : Inv m t := by
  obtain ⟨row, hfind, hif⟩ := Option.bind_eq_some_iff.1 hread
  split at hif
  · simp only [Option.some.injEq] at hif
    subst hif
    have hrow : row ∈ s.messages.rows := List.mem_of_find?_eq_some hfind
    refine ⟨⟨h.known.row, fun i hi => ?_, h.known.job⟩, ?_⟩
    · obtain rfl | hold := List.mem_cons.1 hi
      · refine ⟨h.known.row row hrow, fun m' hm' hid => ?_⟩
        rw [s.messages.eq_of_key_eq hm' hrow hid]
      · exact h.known.intake i hold
    · exact h.settled.kept (.of_eq rfl) (fun r hr => ⟨r, hr, rfl, rfl⟩) (fun _ hx => hx) rfl
  · cases hif

/-! ## The worker -/

theorem loadOrderMail_spec {j : OrderJob} {row : Message} (h : s.loadOrderMail j = some row) :
    row ∈ s.messages.rows ∧ row.mail.accountId = j.accountId ∧
      (row.id = j.messageId ∨ row.mail.messageId = some j.msgKey) := by
  rw [State.loadOrderMail] at h
  split at h
  next m hfind =>
    obtain rfl := Option.some.inj h
    have hm := List.find?_some hfind
    simp only [Bool.and_eq_true, decide_eq_true_eq] at hm
    exact ⟨List.mem_of_find?_eq_some hfind, hm.1.2, Or.inl hm.1.1⟩
  next =>
    split at h
    · cases h
    · have hmem := List.mem_of_mem_head? (Option.mem_def.2 h)
      rw [State.rowsWithHeader, List.mem_insertionSort, List.mem_reverse, List.mem_filter] at hmem
      obtain ⟨hrow, hcond⟩ := hmem
      simp only [Bool.and_eq_true, decide_eq_true_eq] at hcond
      exact ⟨hrow, hcond.1.1, Or.inr hcond.1.2⟩

theorem Inv.home_of_load (h : Inv m s) {j : OrderJob} (hj : j ∈ s.jobs.rows) {row : Message}
    (hload : s.loadOrderMail j = some row) (hm : row.mail = m) : Home m s.jobs j.gate := by
  obtain ⟨hrow, haccount, hid | hheader⟩ := loadOrderMail_spec hload
  · have hmail := (h.known.job j hj).2.2 row hrow hid
    rw [hm] at hmail
    exact h.settled.home j hj hmail
  · rw [hm] at haccount hheader
    have hkey : m.messageId.getD "" = j.msgKey := by rw [hheader]; rfl
    have hne : HasHeader m := by
      rw [HasHeader, hkey]
      exact (h.known.job j hj).1
    exact ⟨haccount.symm, fun _ => hkey.symm, fun hnone => absurd hne hnone⟩

theorem Inv.beginMailJob (h : Inv m s) {j : OrderJob} (hfind : s.jobs.find? j.gate = some j)
    (spam : Bool) (hp : Undisturbed P m s (.begin j.gate spam)) :
    Inv m (s.beginMailJob j spam) := by
  have hj : j ∈ s.jobs.rows := List.mem_of_find?_eq_some hfind
  rw [State.beginMailJob]
  split
  · exact h.plain (plain_setDecided j.gate)
  next row hload =>
    split
    · exact h.plain (plain_setDecided j.gate)
    next hgo =>
      simp only [Bool.or_eq_true, not_or, Bool.not_eq_true, Option.isSome_eq_false_iff,
        Option.isNone_iff_eq_none] at hgo
      have hfree := KeyedTable.find?_eq_none_iff.1 hgo.2
      refine ⟨⟨h.known.row, h.known.intake, h.known.job⟩, ?_⟩
      refine ⟨h.settled.home, h.settled.one, h.settled.register, h.settled.ran, ?_,
        h.settled.detached⟩
      intro x hx
      obtain rfl := Option.some.inj hx
      refine ⟨⟨j, hj, rfl⟩, hfree, fun hm => ⟨h.home_of_load hj hload hm, fun hgone => ?_⟩⟩
      -- the job of a detached mail has been decided, and there is no other
      obtain ⟨-, j', hj', hdecided, hhome⟩ := h.settled.detached hgone
      have hgate := h.settled.one _ _ hhome (h.home_of_load hj hload hm)
      obtain rfl := s.jobs.eq_of_key_eq hj' hj hgate
      exact hp hgone j' hj rfl hdecided row hload hm

theorem Settled.attached (h : Settled m s) {x : Tx} (hx : s.tx = some x) {o : Uuid}
    (hjobs : SameJobs s.jobs t.jobs) (hdecided : ∃ j ∈ t.jobs.rows, j.gate = x.gate ∧ j.decided = true)
    (hrows : ∀ r ∈ t.orderMails.rows, r ∈ s.orderMails.rows ∨ r = x.orderMail o)
    (htx : t.tx = none) (hdetached : t.detached = s.detached) : Settled m t := by
  obtain ⟨-, -, hmail⟩ := h.open_ x hx
  exact
    { home := fun j hj hm => by
        obtain ⟨j', hj', hgate, hmails, -⟩ := hjobs.old j hj
        rw [← hgate]
        rw [← hmails] at hm
        exact hjobs.home (h.home j' hj' hm)
      one := fun g g' hg hg' => h.one g g' (hjobs.home_back hg) (hjobs.home_back hg')
      register := fun r hr hm => by
        obtain hold | rfl := hrows r hr
        · exact hjobs.home (h.register r hold hm)
        · exact hjobs.home (hmail hm).1
      ran := fun r hr => by
        obtain hold | rfl := hrows r hr
        · obtain ⟨j, hj, hgate, hran⟩ := h.ran r hold
          obtain ⟨j', hj', hgate', -, hkept⟩ := hjobs.kept j hj
          exact ⟨j', hj', hgate'.trans hgate, hkept hran⟩
        · exact hdecided
      open_ := fun y hy => by
        rw [htx] at hy
        cases hy
      detached := fun hm => by
        rw [hdetached] at hm
        obtain ⟨hgone, j, hj, hran, hhome⟩ := h.detached hm
        obtain ⟨j', hj', hgate, -, hkept⟩ := hjobs.kept j hj
        refine ⟨fun r hr => ?_, j', hj', hkept hran, hgate ▸ hjobs.home hhome⟩
        obtain hold | rfl := hrows r hr
        · exact hgone r hold
        · exact fun hrow => (hmail hrow).2 hm }

def wrote (s : State) (x : Tx) (o : Uuid) : State :=
  (({ s with tx := none } : State).attachMail (x.orderMail o)).setDecided x.gate

theorem attachMail_rest (s : State) (r : OrderMail) :
    (s.attachMail r).messages = s.messages ∧ (s.attachMail r).nextId = s.nextId ∧
      (s.attachMail r).intakes = s.intakes ∧ (s.attachMail r).jobs = s.jobs ∧
      (s.attachMail r).tx = s.tx ∧ (s.attachMail r).detached = s.detached := by
  rw [State.attachMail]
  split <;> exact ⟨rfl, rfl, rfl, rfl, rfl, rfl⟩

theorem inv_wrote (h : Inv m s) {x : Tx} (hx : s.tx = some x) (o : Uuid) :
    Inv m (wrote s x o) := by
  obtain ⟨hmessages, hnext, hintakes, hjobs, htx, hdetached⟩ :=
    attachMail_rest { s with tx := none } (x.orderMail o)
  have hupdate : (wrote s x o).jobs = s.jobs.update (fun j => decide (j.gate = x.gate))
      (fun j => { j with decided := true }) (fun _ => rfl) :=
    congrArg (fun jobs : Jobs => jobs.update (fun j => decide (j.gate = x.gate))
      (fun j => { j with decided := true }) fun _ => rfl) hjobs
  have hsame : SameJobs s.jobs (wrote s x o).jobs :=
    .of_update _ hupdate (fun _ => rfl) (fun _ => rfl) fun _ _ => rfl
  refine ⟨h.known.kept (.of_eq hmessages) (le_of_eq hnext.symm) (fun i hi => ?_) hsame, ?_⟩
  · exact hintakes ▸ hi
  · obtain ⟨⟨j, hj, hgate⟩, -⟩ := h.settled.open_ x hx
    refine h.settled.attached hx hsame ?_
      (fun r hr => mem_attachMail (s := { s with tx := none }) hr) htx hdetached
    refine ⟨{ j with decided := true }, ?_, hgate, rfl⟩
    refine KeyedTable.mem_update_of (f := fun j : OrderJob => { j with decided := true })
      (by exact fun _ => rfl) ?_ ?_
    · rw [hjobs]
      exact hj
    · exact decide_eq_true hgate

theorem plain_createOrder (h : s.createOrder = some t) : Plain s t ∧ t.tx = s.tx := by
  rw [State.createOrder] at h
  split at h
  · obtain rfl := Option.some.inj h
    exact ⟨.mailbox (.of_eq rfl) (Nat.le_succ _) rfl rfl rfl rfl rfl, rfl⟩
  · cases h

theorem Inv.writeDecision (h : Inv m s) {x : Tx} (hx : s.tx = some x) {target : Target}
    (hwrite : s.writeDecision x target = some t) : Inv m t := by
  cases target with
  | none =>
    obtain rfl := Option.some.inj hwrite
    have hended : Plain s { s with tx := none } :=
      .queue (.of_eq rfl) rfl rfl rfl rfl (fun _ hx => (Option.some_ne_none _ hx.symm).elim) rfl
    exact (h.plain hended).plain (plain_setDecided x.gate)
  | new =>
    obtain ⟨u, hcreate, rfl⟩ := Option.map_eq_some_iff.1 hwrite
    obtain ⟨hcreated, htx⟩ := plain_createOrder hcreate
    exact inv_wrote (h.plain hcreated) (htx.trans hx) s.nextId
  | existing o =>
    rw [State.writeDecision] at hwrite
    split at hwrite
    · obtain rfl := Option.some.inj hwrite
      exact inv_wrote h hx o
    · cases hwrite

/-- Detaching a mail keeps it, wherever the mail goes on to. -/
theorem Inv.detach (h : Inv m s) {g : Gate} {moveTo : Option Uuid}
    (hdetach : s.detach g moveTo = some t) : Inv m t := by
  obtain ⟨r, hfind, hrest⟩ := Option.bind_eq_some_iff.1 hdetach
  obtain ⟨hr, hgate⟩ := KeyedTable.find?_eq_some_iff.1 hfind
  cases moveTo with
  | none =>
    obtain rfl := Option.some.inj hrest
    refine ⟨⟨h.known.row, h.known.intake, h.known.job⟩, ?_⟩
    refine ⟨h.settled.home, h.settled.one,
      fun r' hr' => h.settled.register r' (KeyedTable.mem_erase.1 hr').1,
      fun r' hr' => h.settled.ran r' (KeyedTable.mem_erase.1 hr').1, ?_, ?_⟩
    · intro x hx
      obtain ⟨hjob, hfree, hmail⟩ := h.settled.open_ x hx
      refine ⟨hjob, fun r' hr' => hfree r' (KeyedTable.mem_erase.1 hr').1, fun hm => ?_⟩
      refine ⟨(hmail hm).1, fun hgone => ?_⟩
      obtain rfl | hold := List.mem_cons.1 hgone
      · exact hfree r hr (h.settled.one _ _ (h.settled.register r hr rfl) (hmail hm).1)
      · exact (hmail hm).2 hold
    · intro hgone
      obtain rfl | hold := List.mem_cons.1 hgone
      · obtain ⟨j, hj, hjgate, hran⟩ := h.settled.ran r hr
        have hhome := h.settled.register r hr rfl
        refine ⟨fun r' hr' hm => ?_, j, hj, hran, hjgate ▸ hhome⟩
        obtain ⟨hr', hother⟩ := KeyedTable.mem_erase.1 hr'
        exact hother ((h.settled.one _ _ (h.settled.register r' hr' hm) hhome).trans hgate)
      · obtain ⟨hnone, hjob⟩ := h.settled.detached hold
        exact ⟨fun r' hr' => hnone r' (KeyedTable.mem_erase.1 hr').1, hjob⟩
  | some o =>
    simp only at hrest
    split at hrest
    · obtain rfl := Option.some.inj hrest
      obtain ⟨hmessages, hnext, hintakes, hjobs, htx, hdetached⟩ := attachMail_rest
        { s with orderMails := s.orderMails.erase g } { r with orderId := o, attachedBy := .user }
      refine h.plain (.order (fun r' hr' => ?_) hmessages hnext hintakes hjobs htx hdetached)
      obtain hold | rfl :=
        mem_attachMail (s := { s with orderMails := s.orderMails.erase g }) hr'
      · exact ⟨r', (KeyedTable.mem_erase.1 hold).1, rfl, rfl⟩
      · exact ⟨r, hr, rfl, rfl⟩
    · cases hrest

/-- **One step.** -/
theorem inv_step {l : Label} (h : Inv m s) (hp : Undisturbed P m s l)
    (hst : step P s l = some t) : Inv m t := by
  cases l with
  | setOrdersEnabled accountId enabled =>
    obtain rfl := Option.some.inj hst
    exact h.plain (.mailbox (.of_eq rfl) le_rfl rfl rfl rfl rfl rfl)
  | arrive mail use threadId isDraft => exact h.plain (plain_addMessage hst)
  | resync id => exact h.plain (plain_resync hst)
  | move id use | setUid id imapUid | expunge id =>
    obtain rfl := Option.some.inj hst
    exact h.plain (plain_updateMessage id _ _ fun _ => rfl)
  | remove id =>
    obtain rfl := Option.some.inj hst
    exact h.plain (plain_erase id)
  | read origin id => exact h.read hst
  | enqueue i =>
    rw [step] at hst
    split at hst
    next hi =>
      obtain rfl := Option.some.inj hst
      exact ⟨h.known.enqueue hi, h.settled.enqueue hp⟩
    next => cases hst
  | claim g | giveBack g | fail g => exact h.plain (plain_change hst)
  | begin g spam =>
    obtain ⟨j, hfind, hif⟩ := Option.bind_eq_some_iff.1 hst
    split at hif
    · obtain rfl := Option.some.inj hif
      obtain ⟨-, rfl⟩ := KeyedTable.find?_eq_some_iff.1 hfind
      exact h.beginMailJob hfind spam hp
    · cases hif
  | decide target =>
    obtain ⟨x, hx, hwrite⟩ := Option.bind_eq_some_iff.1 hst
    exact h.writeDecision hx hwrite
  | rollback =>
    rw [step] at hst
    split at hst
    · obtain rfl := Option.some.inj hst
      exact h.plain (.queue (.of_eq rfl) rfl rfl rfl rfl
        (fun _ hx => (Option.some_ne_none _ hx.symm).elim) rfl)
    · cases hst
  | complete g =>
    obtain ⟨j, -, hif⟩ := Option.bind_eq_some_iff.1 hst
    split at hif
    · exact h.plain (plain_change hif)
    · cases hif
  | detach g moveTo => exact h.detach hst
  | updateControls o isSealed =>
    obtain rfl := Option.some.inj hst
    exact h.plain (plain_updateControls o isSealed)
  | merge source target => exact h.plain (plain_mergeOrder hst)
  | deleteOrder o =>
    obtain rfl := Option.some.inj hst
    exact h.plain (plain_deleteOrder o)

end Steps

section Claim

variable {P : Platform} {m : Mail} {s : State}

theorem inv_reachable (h : (system P).Reachable (Undisturbed P m) s) : Inv m s :=
  h.invariant (fun s' (hs : s' = Model.OrderIntake.start) =>
    hs ▸ ⟨known_start, settled_start m⟩) fun _ _ _ hinv hp hst => inv_step hinv hp hst

/-- Where a mail without a header is enqueued under one key only, and no decided job is taken up
for it again once it is detached, it has one job and one row of the register at most, and none
once it is detached. -/
theorem one_decision_each (P : Platform) (m : Mail) (s : State)
    (h : (system P).Reachable (Undisturbed P m) s) : OneEach m s := by
  have hinv := (inv_reachable h).settled
  refine ⟨?_, ?_, fun hgone => ?_⟩
  · refine s.jobs.length_filter_le_one fun j hj j' hj' hm hm' => ?_
    exact hinv.one _ _ (hinv.home j hj (of_decide_eq_true hm))
      (hinv.home j' hj' (of_decide_eq_true hm'))
  · refine s.orderMails.length_filter_le_one fun r hr r' hr' hm hm' => ?_
    exact hinv.one _ _ (hinv.register r hr (of_decide_eq_true hm))
      (hinv.register r' hr' (of_decide_eq_true hm'))
  · rw [rowsOf, List.filter_eq_nil_iff]
    exact fun r hr hm => (hinv.detached hgone).1 r hr (of_decide_eq_true hm)

def plainPlatform : Platform where
  Digest := Model.Glacier.Bytes
  decEq := inferInstance
  sha256 := id
  hexdigest := id
  isoformat := toString

def aConfirmation : Mail where
  uid := 0
  accountId := 1
  messageId := some "<confirmation@shop>"
  fromAddr := some "shop"
  subject := some "Your order"
  receivedAt := some 10
  sizeBytes := some 500

def aRow (mail : Mail) (id : Uuid) (use : SpecialUse) : Message where
  id := id
  mail := mail
  folderUse := some use
  threadId := some 7
  isDraft := false
  imapUid := none
  expunged := false

/-- No step of the run enqueues a mail without a header or takes up a job once a mail was
detached. -/
def quiet (s : State) : Label → Bool
  | .enqueue i => decide (HasHeader i.row.mail)
  | .begin _ _ => decide (s.detached = [])
  | _ => true

theorem undisturbed_of_quiet (P : Platform) (m : Mail) (s : State) (l : Label)
    (h : quiet s l = true) : Undisturbed P m s l := by
  cases l with
  | enqueue i =>
    intro hmail hheader
    rw [← hmail] at hheader
    exact absurd (of_decide_eq_true h) hheader
  | begin g spam =>
    intro hgone
    rw [of_decide_eq_true h] at hgone
    cases hgone
  | _ => trivial

/-- The shop's confirmation is enqueued by the pipeline, gets a new row, is bundled, taken
out by hand, and met again by the pipeline and by a catch-up. -/
def confirmationRun : List Label :=
  [.setOrdersEnabled 1 true, .arrive aConfirmation (some .inbox) (some 7) false,
    .read .live 0, .read .catchup 0, .enqueue ⟨.live, aRow aConfirmation 0 .inbox⟩,
    .resync 0, .read .live 1, .enqueue ⟨.live, aRow aConfirmation 1 .inbox⟩,
    .claim (1, "<confirmation@shop>"), .begin (1, "<confirmation@shop>") false,
    .decide .new, .complete (1, "<confirmation@shop>"),
    .detach (1, "<confirmation@shop>") none,
    .enqueue ⟨.catchup, aRow aConfirmation 0 .inbox⟩]

theorem confirmation_is_decided_once : ∃ s : State,
    (system plainPlatform).Reachable (Undisturbed plainPlatform aConfirmation) s ∧
    (jobsOf aConfirmation s).length = 1 ∧ aConfirmation ∈ s.detached ∧
    OneEach aConfirmation s := by
  obtain ⟨s, hexec, hmeets, hjobs, hgone⟩ : ∃ s : State,
      (system plainPlatform).exec Model.OrderIntake.start confirmationRun = some s ∧
      (system plainPlatform).execMeets (fun s l => quiet s l = true) Model.OrderIntake.start
        confirmationRun = true ∧
      (jobsOf aConfirmation s).length = 1 ∧ s.detached = [aConfirmation] :=
    ⟨_, rfl, rfl, rfl, rfl⟩
  have hreach : (system plainPlatform).Reachable (Undisturbed plainPlatform aConfirmation) s :=
    (TransitionSystem.reachable_of_exec _ rfl hmeets hexec).mono
      fun s l => undisturbed_of_quiet plainPlatform aConfirmation s l
  refine ⟨s, hreach, hjobs, ?_, one_decision_each plainPlatform aConfirmation s hreach⟩
  rw [hgone]
  exact List.mem_cons_self

def aReply : Mail where
  uid := 1
  accountId := 1
  messageId := none
  fromAddr := some "user"
  subject := some "Re: Your order"
  receivedAt := some 20
  sizeBytes := some 300

/-- The reply lands in Sent three times, each time under another row id: it has three jobs,
it is bundled again after it was taken out, and then twice. -/
theorem reply_without_header_is_bundled_again : ¬∀ (P : Platform) (m : Mail) (s : State),
    (system P).Reachable TransitionSystem.anyStep s → OneEach m s := by
  intro hclaim
  obtain ⟨s, hexec, hjobs, hgone, hrows⟩ : ∃ s : State,
      (system plainPlatform).exec Model.OrderIntake.start
        [.setOrdersEnabled 1 true, .arrive aConfirmation (some .inbox) (some 7) false,
          .read .live 0, .enqueue ⟨.live, aRow aConfirmation 0 .inbox⟩,
          .claim (1, "<confirmation@shop>"), .begin (1, "<confirmation@shop>") false,
          .decide .new, .complete (1, "<confirmation@shop>"),
          .arrive aReply (some .sent) (some 7) false, .read .thread 2,
          .enqueue ⟨.thread, aRow aReply 2 .sent⟩, .claim (1, "2"), .begin (1, "2") false,
          .decide (.existing 1), .complete (1, "2"), .detach (1, "2") none,
          .resync 2, .read .thread 3, .enqueue ⟨.thread, aRow aReply 3 .sent⟩,
          .claim (1, "3"), .begin (1, "3") false, .decide (.existing 1), .complete (1, "3"),
          .resync 3, .read .thread 4, .enqueue ⟨.thread, aRow aReply 4 .sent⟩,
          .claim (1, "4"), .begin (1, "4") false, .decide (.existing 1), .complete (1, "4")] =
        some s ∧
      (jobsOf aReply s).length = 3 ∧ s.detached = [aReply] ∧ (rowsOf aReply s).length = 2 :=
    ⟨_, rfl, rfl, rfl, rfl⟩
  have honce := (hclaim plainPlatform aReply s
    (TransitionSystem.reachable_of_exec_any _ rfl hexec)).job
  rw [hjobs] at honce
  exact absurd honce (by decide)

end Claim

end MailVerdict.Analysis.OneDecision
