import MailVerdict.Model.EmbeddingGate

/-!
# What the embedding hints and the runs name

A hint, a half-done enqueue, a batch row and a run each hold a message's id and a key or an
identity read at another time. What one step can write into each table is said once, and from
it follows that an id never comes to stand for a message of another key, and that a run's key
has been at the end of an embedding before.
-/

namespace MailVerdict.Analysis.EmbeddingHints

open MailVerdict.Computation
open Model.Glacier (Uuid Platform)
open Model.EmbeddingCoverage (RowStatus)
open Model.EmbeddingGate Model.EmbeddingGate.State

variable {id : Uuid} {e : MessageEmbedding} {j : Job}

variable {P : Platform} {s t : State} {l : Label}

theorem key_of_identity {m m' : Message} (h : m.identity P = m'.identity P) :
    m.key P = m'.key P := by
  injection h with haccount hrest
  injection hrest with hkey _
  exact Prod.ext haccount hkey

/-! ## The gate -/

theorem enqueuePipelineRun_cases (accountId : Uuid) (messageId : Option Uuid) :
    s.enqueuePipelineRunIfLiveEligible P accountId messageId = s ∨
      ∃ m ∈ s.messages.rows, messageId = some m.id ∧ m.accountId = accountId ∧
        s.liveEligible m = true ∧
        s.enqueuePipelineRunIfLiveEligible P accountId messageId = s.insertRun (m.run P) := by
  unfold enqueuePipelineRunIfLiveEligible
  split
  · exact Or.inl rfl
  · rename_i m hm
    obtain ⟨hfind, hguard⟩ := Option.filter_eq_some_iff.1 hm
    obtain ⟨x, hx, hfound⟩ := Option.bind_eq_some_iff.1 hfind
    obtain ⟨hmem, rfl⟩ := KeyedTable.find?_eq_some_iff.1 hfound
    rw [Bool.and_eq_true, decide_eq_true_eq] at hguard
    exact Or.inr ⟨m, hmem, hx, hguard.1, hguard.2, rfl⟩

theorem ends_row {workerId : WorkerId}
    (h : (∃ model, s.writeResult P id workerId model = some t) ∨ s.fail P id workerId = some t) :
    ∃ e ∈ s.embeddings.rows, ∃ status, e.status = .claimed ∧ terminal status = true ∧
      t = (s.close e status).enqueuePipelineRunIfLiveEligible P e.accountId e.messageId := by
  have hheld : ∀ e, s.held id workerId = some e → e ∈ s.embeddings.rows ∧ e.status = .claimed := by
    intro e he
    refine ⟨List.mem_of_find?_eq_some he, ?_⟩
    have hguard := List.find?_some he
    simp only [Bool.and_eq_true, decide_eq_true_eq] at hguard
    exact hguard.1.2
  rcases h with ⟨model, h⟩ | h
  · obtain ⟨e, he, rfl⟩ := Option.map_eq_some_iff.1 h
    obtain ⟨hmem, hclaimed⟩ := hheld e (Option.filter_eq_some_iff.1 he).1
    exact ⟨e, hmem, .done, hclaimed, rfl, rfl⟩
  · obtain ⟨e, he, rfl⟩ := Option.map_eq_some_iff.1 h
    obtain ⟨hmem, hclaimed⟩ := hheld e he
    exact ⟨e, hmem, .failed, hclaimed, rfl, rfl⟩

theorem insertNext_cases (h : s.insertNext P = some t) :
    ∃ m rest, s.pass = m :: rest ∧ t = { s with pass := rest }.insertRun (m.run P) := by
  unfold insertNext at h
  split at h
  · cases h
  · rename_i m rest hpass
    cases h
    exact ⟨m, rest, hpass, rfl⟩

structure Unchanged (s t : State) : Prop where
  messages : t.messages = s.messages
  folders : t.folders = s.folders
  folderStates : t.folderStates = s.folderStates
  now : t.now = s.now
  model : t.model = s.model
  maxAgeDays : t.maxAgeDays = s.maxAgeDays

theorem Unchanged.refl : Unchanged s s := ⟨rfl, rfl, rfl, rfl, rfl, rfl⟩

theorem Unchanged.trans {u : State} (h : Unchanged s t) (h' : Unchanged t u) : Unchanged s u :=
  ⟨h'.messages.trans h.messages, h'.folders.trans h.folders,
    h'.folderStates.trans h.folderStates, h'.now.trans h.now, h'.model.trans h.model,
    h'.maxAgeDays.trans h.maxAgeDays⟩

theorem enqueuePipelineRun_unchanged (accountId : Uuid) (messageId : Option Uuid) :
    Unchanged s (s.enqueuePipelineRunIfLiveEligible P accountId messageId) := by
  obtain h | ⟨m, -, -, -, -, h⟩ := enqueuePipelineRun_cases (P := P) (s := s) accountId messageId
  · rw [h]
    exact .refl
  · rw [h]
    exact ⟨rfl, rfl, rfl, rfl, rfl, rfl⟩

theorem advance_unchanged (j : Job) : Unchanged s (s.advance P j).1 := by
  cases j <;> exact ⟨rfl, rfl, rfl, rfl, rfl, rfl⟩

/-- **A step of the gate leaves the mirror and the settings alone.** -/
theorem gate_unchanged (h : step P s l = some t) (hgate : l.ofGate = true) : Unchanged s t := by
  cases l with
  | selectArrival id | selectMissing id =>
    obtain ⟨j, -, rfl⟩ := Option.map_eq_some_iff.1 h
    exact ⟨rfl, rfl, rfl, rfl, rfl, rfl⟩
  | embedGlacier accountId msgKey | claim id workerId | release id | prune =>
    cases h
    exact ⟨rfl, rfl, rfl, rfl, rfl, rfl⟩
  | advance i =>
    obtain ⟨j, -, rfl⟩ := Option.map_eq_some_iff.1 h
    exact (advance_unchanged j).trans ⟨rfl, rfl, rfl, rfl, rfl, rfl⟩
  | writeResult id workerId model =>
    obtain ⟨e, -, status, -, -, rfl⟩ := ends_row (Or.inl ⟨model, h⟩)
    have hclose : Unchanged s (s.close e status) := ⟨rfl, rfl, rfl, rfl, rfl, rfl⟩
    exact hclose.trans (enqueuePipelineRun_unchanged _ _)
  | fail id workerId =>
    obtain ⟨e, -, status, -, -, rfl⟩ := ends_row (Or.inr h)
    have hclose : Unchanged s (s.close e status) := ⟨rfl, rfl, rfl, rfl, rfl, rfl⟩
    exact hclose.trans (enqueuePipelineRun_unchanged _ _)
  | scan =>
    obtain ⟨-, hscan⟩ := Option.ite_none_right_eq_some.1 h
    cases hscan
    exact ⟨rfl, rfl, rfl, rfl, rfl, rfl⟩
  | insertNext =>
    obtain ⟨m, rest, -, rfl⟩ := insertNext_cases h
    exact ⟨rfl, rfl, rfl, rfl, rfl, rfl⟩
  | tick _ | configure _ _ | folder _ | folderSynced _ | mirror _ | move _ _ | expunge _
  | revert _ | purge _ | toGlacier _ | fromGlacier _ => cases hgate

/-! ## Messages -/

/-- A message row is one before the step, with its identity, or new. -/
def MessagesMove (P : Platform) (s t : State) : Prop :=
  ∀ m ∈ t.messages.rows,
    (∃ m' ∈ s.messages.rows, m'.id = m.id ∧ m'.identity P = m.identity P) ∨
      (m.id = s.nextId ∧ s.nextId < t.nextId)

theorem setMessage_moves {f : Message → Message} (hf : ∀ m, (f m).id = m.id)
    (hsame : ∀ m, (f m).identity P = m.identity P) : MessagesMove P s (s.setMessage id f hf) := by
  intro m hm
  obtain ⟨m', hm', rfl⟩ := (KeyedTable.mem_of_eq_update hf rfl).1 hm
  refine Or.inl ⟨m', hm', ?_⟩
  split
  · exact ⟨(hf m').symm, (hsame m').symm⟩
  · exact ⟨rfl, rfl⟩

theorem messagesMove_of_eq (h : t.messages = s.messages) : MessagesMove P s t := by
  intro m hm
  exact Or.inl ⟨m, h ▸ hm, rfl, rfl⟩

/-! ## Rows of embeddings -/

def messageKey (e : MessageEmbedding) : Uuid × String := (e.accountId, e.msgKey)

theorem messageKey_of_key {e' : MessageEmbedding} (h : e.key = e'.key) :
    messageKey e = messageKey e' := by
  injection h with haccount hrest
  injection hrest with hkey _
  exact Prod.ext haccount hkey

structure Continues (P : Platform) (s : State) (reached : List (Uuid × String))
    (e e' : MessageEmbedding) : Prop where
  id : e'.id = e.id
  key : e'.key = e.key
  status : terminal e'.status = true → terminal e.status = true ∨ messageKey e ∈ reached
  hint : e'.messageId = e.messageId ∨ e'.messageId = none ∨
    ∃ m, e'.messageId = some m.id ∧
      (Job.repoint m e.id ∈ s.jobs ∨ (m ∈ s.messages.rows ∧ m.key P = messageKey e))

theorem Continues.refl {reached : List (Uuid × String)} :
    Continues P s reached e e :=
  ⟨rfl, rfl, Or.inl, Or.inl rfl⟩

structure Appears (P : Platform) (s : State) (nextId : Uuid) (key : Uuid × String × String)
    (e : MessageEmbedding) : Prop where
  key : e.key = key
  id : e.id = s.nextId
  nextId : s.nextId < nextId
  status : e.status = .pending
  hint : ∀ x, e.messageId = some x →
    ∃ m model, Job.insert m model ∈ s.jobs ∧ x = m.id ∧ m.key P = messageKey e

def RowsMove (P : Platform) (s t : State) : Prop :=
  ∃ key, ∀ e' ∈ t.embeddings.rows,
    (∃ e ∈ s.embeddings.rows, Continues P s t.reached e e') ∨ Appears P s t.nextId key e'

theorem rowsMove_of_continues (h : ∀ e' ∈ t.embeddings.rows,
    ∃ e ∈ s.embeddings.rows, Continues P s t.reached e e') : RowsMove P s t :=
  ⟨(0, "", ""), fun e' he' => Or.inl (h e' he')⟩

theorem rowsMove_of_eq (h : t.embeddings = s.embeddings) : RowsMove P s t :=
  rowsMove_of_continues fun e he => ⟨e, h ▸ he, .refl⟩

theorem rowsMove_of_update {p : MessageEmbedding → Bool} {f : MessageEmbedding → MessageEmbedding}
    (hf : ∀ e, (f e).key = e.key) (h : t.embeddings = s.embeddings.update p f hf)
    (hrow : ∀ e ∈ s.embeddings.rows, p e = true → Continues P s t.reached e (f e)) :
    RowsMove P s t := by
  refine rowsMove_of_continues fun e' he' => ?_
  obtain ⟨e, he, rfl⟩ := (KeyedTable.mem_of_eq_update hf h).1 he'
  refine ⟨e, he, ?_⟩
  split
  · rename_i hp
    exact hrow e he hp
  · exact .refl

theorem insertEmbedding_rowsMove {accountId : Uuid} {msgKey model : String}
    {messageId : Option Uuid} (hhint : ∀ x, messageId = some x →
      ∃ m model, Job.insert m model ∈ s.jobs ∧ x = m.id ∧ m.key P = (accountId, msgKey)) :
    RowsMove P s (s.insertEmbedding accountId msgKey messageId model) := by
  refine ⟨(accountId, msgKey, model), fun e he => ?_⟩
  obtain hold | hnew := KeyedTable.mem_insertAll.2 he
  · exact Or.inl ⟨e, hold, .refl⟩
  · rw [List.mem_singleton.1 hnew]
    exact Or.inr ⟨rfl, rfl, Nat.lt_succ_self _, rfl, hhint⟩

theorem advance_rowsMove (hj : j ∈ s.jobs) : RowsMove P s (s.advance P j).1 := by
  cases j with
  | selected m model | found m embeddingId hint => exact rowsMove_of_eq rfl
  | repoint m embeddingId =>
    refine rowsMove_of_update (by intro _; rfl) rfl fun e he hp => ?_
    have hid : e.id = embeddingId := of_decide_eq_true hp
    exact ⟨rfl, rfl, Or.inl, Or.inr (Or.inr ⟨m, rfl, Or.inl (hid ▸ hj)⟩)⟩
  | insert m model =>
    refine insertEmbedding_rowsMove fun x hx => ?_
    exact ⟨m, model, hj, (Option.some.inj hx).symm, rfl⟩

theorem enqueuePipelineRun_embeddings (accountId : Uuid) (messageId : Option Uuid) :
    (s.enqueuePipelineRunIfLiveEligible P accountId messageId).embeddings = s.embeddings ∧
      (s.enqueuePipelineRunIfLiveEligible P accountId messageId).reached = s.reached := by
  obtain h | ⟨m, -, -, -, -, h⟩ := enqueuePipelineRun_cases (P := P) (s := s) accountId messageId
  · rw [h]
    exact ⟨rfl, rfl⟩
  · rw [h]
    exact ⟨rfl, rfl⟩

theorem close_rowsMove (e : MessageEmbedding) (status : RowStatus) :
    RowsMove P s
      ((s.close e status).enqueuePipelineRunIfLiveEligible P e.accountId e.messageId) := by
  obtain ⟨hrows, hreached⟩ :=
    enqueuePipelineRun_embeddings (P := P) (s := s.close e status) e.accountId e.messageId
  refine rowsMove_of_update (by intro _; rfl) hrows fun e' he' hp => ?_
  have hkey : e'.key = e.key := of_decide_eq_true hp
  refine ⟨rfl, rfl, fun _ => Or.inr ?_, Or.inl rfl⟩
  rw [hreached, messageKey_of_key hkey]
  exact List.mem_append_right _ (List.mem_singleton.2 rfl)

/-! ## Runs -/

theorem mem_insertRun {q r : PipelineRun} (hr : r ∈ (s.insertRun q).runs.rows) :
    (r ∈ s.runs.rows ∧ r.key ≠ q.key) ∨ (r.key = q.key ∧ r.messageId = q.messageId) := by
  unfold insertRun at hr
  split at hr
  · obtain ⟨r', hr', rfl⟩ := (KeyedTable.mem_of_eq_update (by intro _; rfl) rfl).1 hr
    split
    · rename_i hkey
      exact Or.inr ⟨of_decide_eq_true hkey, rfl⟩
    · rename_i hkey
      exact Or.inl ⟨hr', fun hsame => hkey (decide_eq_true hsame)⟩
  · rename_i hnew
    obtain hold | rfl := (KeyedTable.mem_insert hnew).1 hr
    · exact Or.inl ⟨hold, fun hsame => hnew (hsame ▸ List.mem_map_of_mem hold)⟩
    · exact Or.inr ⟨rfl, rfl⟩

theorem insertRun_self (q : PipelineRun) :
    ∃ r ∈ (s.insertRun q).runs.rows, r.key = q.key ∧ r.messageId = q.messageId := by
  unfold insertRun
  split
  · rename_i hkey
    obtain ⟨r, hr, hsame⟩ := List.mem_map.1 hkey
    refine ⟨{ r with messageId := q.messageId }, ?_, hsame, rfl⟩
    refine (KeyedTable.mem_of_eq_update (by intro _; rfl) rfl).2 ⟨r, hr, ?_⟩
    rw [if_pos (decide_eq_true hsame)]
  · rename_i hnew
    exact ⟨q, (KeyedTable.mem_insert hnew).2 (Or.inr rfl), rfl, rfl⟩

theorem insertRun_of_ne {q r : PipelineRun} (hr : r ∈ s.runs.rows) (hne : r.key ≠ q.key) :
    r ∈ (s.insertRun q).runs.rows := by
  unfold insertRun
  split
  · refine (KeyedTable.mem_of_eq_update (by intro _; rfl) rfl).2 ⟨r, hr, ?_⟩
    rw [if_neg fun hsame => hne (of_decide_eq_true hsame)]
  · rename_i hnew
    exact (KeyedTable.mem_insert hnew).2 (Or.inl hr)

/-- A run inserted or re-pointed in a step: for a row of the open pass, or for the message of a
row whose end is recorded. -/
def Enqueued (P : Platform) (s : State) (reached : List (Uuid × String)) (r : PipelineRun) :
    Prop :=
  ∃ m, r.key = m.identity P ∧ r.messageId = m.id ∧
    (m ∈ s.pass ∨ (m ∈ s.messages.rows ∧ ∃ e ∈ s.embeddings.rows, e.messageId = some m.id ∧
      messageKey e ∈ reached))

def RunsMove (P : Platform) (s t : State) : Prop :=
  ∀ r ∈ t.runs.rows, r ∈ s.runs.rows ∨ Enqueued P s t.reached r

theorem runsMove_of_eq (h : t.runs = s.runs) : RunsMove P s t := by
  intro r hr
  exact Or.inl (h ▸ hr)

theorem close_runsMove (he : e ∈ s.embeddings.rows) (status : RowStatus) :
    RunsMove P s
      ((s.close e status).enqueuePipelineRunIfLiveEligible P e.accountId e.messageId) := by
  intro r hr
  rw [(enqueuePipelineRun_embeddings (P := P) (s := s.close e status) _ _).2]
  obtain h | ⟨m, hm, hhint, -, -, h⟩ :=
    enqueuePipelineRun_cases (P := P) (s := s.close e status) e.accountId e.messageId
  · rw [h] at hr
    exact Or.inl hr
  · rw [h] at hr
    obtain ⟨hold, -⟩ | ⟨hkey, hid⟩ := mem_insertRun hr
    · exact Or.inl hold
    · refine Or.inr ⟨m, hkey, hid, Or.inr ⟨hm, e, he, hhint, ?_⟩⟩
      exact List.mem_append_right _ (List.mem_singleton.2 rfl)

/-! ## Enqueues and batches -/

def Selectable (P : Platform) (s : State) (m : Message) : Prop :=
  m ∈ s.messages.rows ∧ m.live = true ∧ (m.isDraft = false ∨ s.isMissing P m = true)

def Taken (P : Platform) (s : State) : Job → Prop
  | .selected m _ => Selectable P s m
  | .found m embeddingId hint =>
    (∃ model, Job.selected m model ∈ s.jobs) ∧ ∃ e ∈ s.embeddings.rows,
      e.id = embeddingId ∧ messageKey e = m.key P ∧ e.messageId = some hint
  | .repoint m embeddingId =>
    (∃ hint, Job.found m embeddingId hint ∈ s.jobs ∧ s.isLive P hint = false) ∨
      ((∃ model, Job.selected m model ∈ s.jobs) ∧ ∃ e ∈ s.embeddings.rows,
        e.id = embeddingId ∧ messageKey e = m.key P ∧ e.messageId = none)
  | .insert m model => Job.selected m model ∈ s.jobs

def JobsMove (P : Platform) (s t : State) : Prop :=
  ∀ j ∈ t.jobs, j ∈ s.jobs ∨ Taken P s j

theorem jobsMove_of_eq (h : t.jobs = s.jobs) : JobsMove P s t := by
  intro j hj
  exact Or.inl (h ▸ hj)

theorem live_of_isMissing {m : Message} (h : s.isMissing P m = true) : m.live = true := by
  unfold isMissing at h
  simp only [Bool.and_eq_true, decide_eq_true_eq] at h
  have hscope := (List.mem_filter.1 h.1.1).2
  simp only [Bool.and_eq_true] at hscope
  exact hscope.1.1

theorem selectArrival_taken (h : s.selectArrival id = some j) :
    Taken P s j := by
  obtain ⟨m, hm, rfl⟩ := Option.map_eq_some_iff.1 h
  obtain ⟨hfind, hguard⟩ := Option.filter_eq_some_iff.1 hm
  rw [Bool.and_eq_true, Bool.not_eq_true'] at hguard
  exact ⟨(KeyedTable.find?_eq_some_iff.1 hfind).1, hguard.1, Or.inl hguard.2⟩

theorem selectMissing_taken (h : s.selectMissing P id = some j) :
    Taken P s j := by
  obtain ⟨m, hm, rfl⟩ := Option.map_eq_some_iff.1 h
  obtain ⟨hfind, hmissing⟩ := Option.filter_eq_some_iff.1 hm
  exact ⟨(KeyedTable.find?_eq_some_iff.1 hfind).1, live_of_isMissing hmissing, Or.inr hmissing⟩

theorem advance_taken {j' : Job} (hj : j ∈ s.jobs) (h : (s.advance P j).2 = some j') :
    Taken P s j' := by
  cases j with
  | selected m model =>
    dsimp only [advance, lookUp] at h
    split at h
    · cases h
      exact hj
    · rename_i e he
      obtain ⟨hmem, hkey⟩ := KeyedTable.find?_eq_some_iff.1 he
      have hmessage : messageKey e = m.key P := by
        injection hkey with haccount hrest
        injection hrest with hmsgKey _
        exact Prod.ext haccount hmsgKey
      split at h
      · rename_i hnone
        cases h
        exact Or.inr ⟨⟨model, hj⟩, e, hmem, rfl, hmessage, hnone⟩
      · rename_i hint hhint
        obtain ⟨-, hsome⟩ := Option.ite_none_left_eq_some.1 h
        cases hsome
        exact ⟨⟨model, hj⟩, e, hmem, rfl, hmessage, hhint⟩
  | found m embeddingId hint =>
    dsimp only [advance, checkHint] at h
    obtain ⟨hdead, hsome⟩ := Option.ite_none_left_eq_some.1 h
    cases hsome
    exact Or.inl ⟨hint, hj, Bool.eq_false_iff.2 hdead⟩
  | repoint m embeddingId => cases h
  | insert m model => cases h

def PassMove (s t : State) : Prop := ∀ m ∈ t.pass, m ∈ s.pass ∨ m ∈ s.candidates

theorem passMove_of_eq (h : t.pass = s.pass) : PassMove s t := by
  intro m hm
  exact Or.inl (h ▸ hm)

theorem scan_passMove : PassMove s s.scan := by
  intro m hm
  exact Or.inr ((List.mem_insertionSort _).1 (List.mem_of_mem_take hm))

/-! ## A step -/

structure Moves (P : Platform) (s t : State) : Prop where
  nextId : s.nextId ≤ t.nextId
  reached : s.reached ⊆ t.reached
  messages : MessagesMove P s t
  rows : RowsMove P s t
  runs : RunsMove P s t
  jobs : JobsMove P s t
  pass : PassMove s t

theorem Moves.refl : Moves P s s :=
  ⟨Nat.le_refl _, List.Subset.refl _, messagesMove_of_eq rfl, rowsMove_of_eq rfl,
    runsMove_of_eq rfl, jobsMove_of_eq rfl, passMove_of_eq rfl⟩

theorem close_moves {status : RowStatus} (he : e ∈ s.embeddings.rows) :
    Moves P s
      ((s.close e status).enqueuePipelineRunIfLiveEligible P e.accountId e.messageId) := by
  have hrows := close_rowsMove (P := P) (s := s) e status
  have hruns := close_runsMove (P := P) he status
  have hreached : s.reached ⊆ (s.close e status).reached := List.subset_append_left _ _
  obtain h | ⟨m, -, -, -, -, h⟩ :=
    enqueuePipelineRun_cases (P := P) (s := s.close e status) e.accountId e.messageId
  · rw [h] at hrows hruns ⊢
    exact { Moves.refl (P := P) (s := s) with reached := hreached, rows := hrows, runs := hruns }
  · rw [h] at hrows hruns ⊢
    exact { Moves.refl (P := P) (s := s) with reached := hreached, rows := hrows, runs := hruns }

theorem advance_moves {i : ℕ} (hj : s.jobs[i]? = some j) :
    Moves P s
      { (s.advance P j).1 with jobs := s.jobs.eraseIdx i ++ (s.advance P j).2.toList } := by
  have hmem : j ∈ s.jobs := List.mem_of_getElem? hj
  have hrows := advance_rowsMove (P := P) hmem
  have hnextId : s.nextId ≤ (s.advance P j).1.nextId := by
    cases j with
    | insert _ _ => exact Nat.le_succ _
    | _ => exact Nat.le_refl _
  have hruns : RunsMove P s (s.advance P j).1 := by
    cases j <;> exact runsMove_of_eq rfl
  have hframe : (s.advance P j).1.messages = s.messages ∧
      (s.advance P j).1.reached = s.reached ∧ (s.advance P j).1.pass = s.pass := by
    cases j <;> exact ⟨rfl, rfl, rfl⟩
  refine ⟨hnextId, ?_, messagesMove_of_eq hframe.1, hrows, hruns, ?_, passMove_of_eq hframe.2.2⟩
  · exact hframe.2.1 ▸ List.Subset.refl _
  · intro j' hj'
    obtain hold | hnew := List.mem_append.1 hj'
    · exact Or.inl (List.mem_of_mem_eraseIdx hold)
    · exact Or.inr (advance_taken hmem (Option.mem_toList.1 hnew))

/-- **One step, table by table.** -/
theorem step_moves (h : step P s l = some t) : Moves P s t := by
  cases l with
  | tick _ | configure _ _ | folder _ =>
    cases h
    exact { Moves.refl (P := P) (s := s) with }
  | folderSynced _ =>
    obtain ⟨x, -, rfl⟩ := Option.map_eq_some_iff.1 h
    exact { Moves.refl (P := P) (s := s) with }
  | move _ _ | expunge _ | revert _ =>
    cases h
    refine { Moves.refl (P := P) (s := s) with messages := ?_ }
    exact setMessage_moves (by intro _; rfl) (by intro _; rfl)
  | purge id =>
    cases h
    refine { Moves.refl (P := P) (s := s) with messages := ?_ }
    intro m hm
    exact Or.inl ⟨m, (KeyedTable.mem_erase.1 hm).1, rfl, rfl⟩
  | mirror m =>
    cases h
    refine { Moves.refl (P := P) (s := s) with
      nextId := Nat.le_succ _, messages := ?_, rows := rowsMove_of_eq rfl }
    intro m' hm'
    obtain hold | hnew := KeyedTable.mem_insertAll.2 hm'
    · exact Or.inl ⟨m', hold, rfl, rfl⟩
    · rw [List.mem_singleton.1 hnew]
      exact Or.inr ⟨rfl, Nat.lt_succ_self _⟩
  | toGlacier id =>
    cases h
    refine { Moves.refl (P := P) (s := s) with messages := ?_, rows := ?_ }
    · exact setMessage_moves (by intro _; rfl) (by intro _; rfl)
    · refine rowsMove_of_update (by intro _; rfl) rfl fun e _ _ => ?_
      exact ⟨rfl, rfl, Or.inl, Or.inr (Or.inl rfl)⟩
  | fromGlacier id =>
    obtain ⟨m, hm, rfl⟩ := Option.map_eq_some_iff.1 h
    have hmem := (KeyedTable.find?_eq_some_iff.1 (Option.filter_eq_some_iff.1 hm).1).1
    refine { Moves.refl (P := P) (s := s) with rows := ?_ }
    refine rowsMove_of_update (by intro _; rfl) rfl fun e _ hp => ?_
    simp only [Bool.and_eq_true, decide_eq_true_eq] at hp
    have hkey : m.key P = messageKey e := Prod.ext hp.1.2.symm hp.2.symm
    exact ⟨rfl, rfl, Or.inl, Or.inr (Or.inr ⟨m, rfl, Or.inr ⟨hmem, hkey⟩⟩)⟩
  | selectArrival id =>
    obtain ⟨j, hj, rfl⟩ := Option.map_eq_some_iff.1 h
    refine { Moves.refl (P := P) (s := s) with jobs := ?_ }
    intro j' hj'
    obtain hold | hnew := List.mem_append.1 hj'
    · exact Or.inl hold
    · exact Or.inr (List.mem_singleton.1 hnew ▸ selectArrival_taken hj)
  | selectMissing id =>
    obtain ⟨j, hj, rfl⟩ := Option.map_eq_some_iff.1 h
    refine { Moves.refl (P := P) (s := s) with jobs := ?_ }
    intro j' hj'
    obtain hold | hnew := List.mem_append.1 hj'
    · exact Or.inl hold
    · exact Or.inr (List.mem_singleton.1 hnew ▸ selectMissing_taken hj)
  | embedGlacier accountId msgKey =>
    cases h
    refine { Moves.refl (P := P) (s := s) with
      nextId := Nat.le_succ _, messages := messagesMove_of_eq rfl, rows := ?_ }
    exact insertEmbedding_rowsMove fun x hx => by cases hx
  | advance i =>
    obtain ⟨j, hj, rfl⟩ := Option.map_eq_some_iff.1 h
    exact advance_moves hj
  | claim id workerId | release id =>
    cases h
    refine { Moves.refl (P := P) (s := s) with rows := ?_ }
    refine rowsMove_of_update (by intro _; rfl) rfl fun e _ _ => ?_
    exact ⟨rfl, rfl, fun hend => absurd hend Bool.false_ne_true, Or.inl rfl⟩
  | writeResult id workerId model =>
    obtain ⟨e, he, status, -, -, rfl⟩ := ends_row (Or.inl ⟨model, h⟩)
    exact close_moves he
  | fail id workerId =>
    obtain ⟨e, he, status, -, -, rfl⟩ := ends_row (Or.inr h)
    exact close_moves he
  | prune =>
    cases h
    refine { Moves.refl (P := P) (s := s) with rows := ?_ }
    exact rowsMove_of_continues fun e he => ⟨e, (KeyedTable.mem_filter.1 he).1, .refl⟩
  | scan =>
    obtain ⟨-, hscan⟩ := Option.ite_none_right_eq_some.1 h
    cases hscan
    exact { Moves.refl (P := P) (s := s) with pass := scan_passMove }
  | insertNext =>
    obtain ⟨m, rest, hpass, rfl⟩ := insertNext_cases h
    refine { Moves.refl (P := P) (s := s) with runs := ?_, pass := ?_ }
    · intro r hr
      obtain ⟨hold, -⟩ | ⟨hkey, hid⟩ := mem_insertRun hr
      · exact Or.inl hold
      · exact Or.inr ⟨m, hkey, hid, Or.inl (hpass ▸ List.mem_cons_self)⟩
    · intro m' hm'
      exact Or.inl (hpass ▸ List.mem_cons_of_mem m hm')

/-! ## The invariant -/

/-- The id stands, or stood, for a message of which `f` gives `a`, and for no other. -/
structure Known {α : Type} (f : Message → α) (s : State) (id : Uuid) (a : α) : Prop where
  lt : id < s.nextId
  same : ∀ m ∈ s.messages.rows, m.id = id → f m = a

theorem Known.move {α : Type} {f : Message → α} {a : α} (h : Known f s id a)
    (hmoves : Moves P s t) (hf : ∀ m m' : Message, m.identity P = m'.identity P → f m = f m') :
    Known f t id a := by
  refine ⟨Nat.lt_of_lt_of_le h.lt hmoves.nextId, fun m hm hid => ?_⟩
  obtain ⟨m', hm', hsame, hidentity⟩ | ⟨hnew, -⟩ := hmoves.messages m hm
  · rw [← h.same m' hm' (hsame.trans hid)]
    exact hf m m' hidentity.symm
  · exact absurd h.lt (Nat.not_lt.2 (Nat.le_of_eq (hnew.symm.trans hid)))

/-- The id stands, or stood, for an embedding row of a key. -/
structure RowKnown (s : State) (id : Uuid) (k : Uuid × String) : Prop where
  lt : id < s.nextId
  same : ∀ e ∈ s.embeddings.rows, e.id = id → messageKey e = k

theorem RowKnown.move {k : Uuid × String} (h : RowKnown s id k)
    (hmoves : Moves P s t) : RowKnown t id k := by
  refine ⟨Nat.lt_of_lt_of_le h.lt hmoves.nextId, fun e' he' hid => ?_⟩
  obtain ⟨key, hrows⟩ := hmoves.rows
  obtain ⟨e, he, hcontinues⟩ | hnew := hrows e' he'
  · rw [messageKey_of_key hcontinues.key]
    exact h.same e he (hcontinues.id.symm.trans hid)
  · exact absurd h.lt (Nat.not_lt.2 (Nat.le_of_eq (hnew.id.symm.trans hid)))

/-- What an enqueue carries agrees with the mirror and with the row it found. -/
def JobKnown (P : Platform) (s : State) : Job → Prop
  | .selected m _ | .insert m _ => Known (Message.key P) s m.id (m.key P)
  | .found m embeddingId _ | .repoint m embeddingId =>
    Known (Message.key P) s m.id (m.key P) ∧ RowKnown s embeddingId (m.key P)

theorem JobKnown.move (h : JobKnown P s j) (hmoves : Moves P s t) :
    JobKnown P t j := by
  have hkey : ∀ {m : Message}, Known (Message.key P) s m.id (m.key P) →
      Known (Message.key P) t m.id (m.key P) :=
    fun hknown => hknown.move hmoves fun _ _ => key_of_identity
  cases j with
  | selected m model => exact hkey h
  | insert m model => exact hkey h
  | found m embeddingId hint | repoint m embeddingId => exact ⟨hkey h.1, h.2.move hmoves⟩

structure Inv (P : Platform) (s : State) : Prop where
  messages : ∀ m ∈ s.messages.rows, m.id < s.nextId
  rows : ∀ e ∈ s.embeddings.rows, e.id < s.nextId
  ids : ∀ e ∈ s.embeddings.rows, ∀ e' ∈ s.embeddings.rows, e.id = e'.id → e.key = e'.key
  hints : ∀ e ∈ s.embeddings.rows, ∀ id, e.messageId = some id →
    Known (Message.key P) s id (messageKey e)
  jobs : ∀ j ∈ s.jobs, JobKnown P s j
  runs : ∀ r ∈ s.runs.rows, Known (Message.identity P) s r.messageId r.key
  pass : ∀ m ∈ s.pass, Known (Message.identity P) s m.id (m.identity P) ∧ m.key P ∈ s.reached
  ended : ∀ e ∈ s.embeddings.rows, terminal e.status = true → messageKey e ∈ s.reached
  early : ∀ r ∈ s.runs.rows, (r.accountId, r.msgKey) ∈ s.reached

theorem inv_start (model : String) (maxAgeDays : ℕ) : Inv P (start model maxAgeDays) where
  messages _ hm := absurd hm List.not_mem_nil
  rows _ he := absurd he List.not_mem_nil
  ids _ he := absurd he List.not_mem_nil
  hints _ he := absurd he List.not_mem_nil
  jobs _ hj := absurd hj List.not_mem_nil
  runs _ hr := absurd hr List.not_mem_nil
  pass _ hm := absurd hm List.not_mem_nil
  ended _ he := absurd he List.not_mem_nil
  early _ hr := absurd hr List.not_mem_nil

section Step

variable (h : Inv P s) (hmoves : Moves P s t)

include h hmoves

theorem messages_step : ∀ m ∈ t.messages.rows, m.id < t.nextId := by
  intro m hm
  obtain ⟨m', hm', hsame, -⟩ | ⟨hnew, hlt⟩ := hmoves.messages m hm
  · exact hsame ▸ Nat.lt_of_lt_of_le (h.messages m' hm') hmoves.nextId
  · exact hnew ▸ hlt

theorem rows_step : ∀ e ∈ t.embeddings.rows, e.id < t.nextId := by
  intro e' he'
  obtain ⟨key, hrows⟩ := hmoves.rows
  obtain ⟨e, he, hcontinues⟩ | hnew := hrows e' he'
  · exact hcontinues.id ▸ Nat.lt_of_lt_of_le (h.rows e he) hmoves.nextId
  · exact hnew.id ▸ hnew.nextId

theorem hints_step : ∀ e ∈ t.embeddings.rows, ∀ id, e.messageId = some id →
    Known (Message.key P) t id (messageKey e) := by
  intro e' he' id hid
  have hmove : ∀ k, Known (Message.key P) s id k → Known (Message.key P) t id k :=
    fun k hknown => hknown.move hmoves fun _ _ => key_of_identity
  obtain ⟨key, hrows⟩ := hmoves.rows
  obtain ⟨e, he, hcontinues⟩ | hnew := hrows e' he'
  · rw [messageKey_of_key hcontinues.key]
    obtain hsame | hnone | ⟨m, hm, hjob | ⟨hmem, hkey⟩⟩ := hcontinues.hint
    · exact hmove _ (h.hints e he id (hsame.symm.trans hid))
    · exact absurd (hnone.symm.trans hid) (by simp)
    · obtain ⟨hmessage, hrow⟩ := h.jobs _ hjob
      obtain rfl : m.id = id := Option.some.inj (hm.symm.trans hid)
      rw [hrow.same e he rfl]
      exact hmove _ hmessage
    · obtain rfl : m.id = id := Option.some.inj (hm.symm.trans hid)
      rw [← hkey]
      refine hmove _ ⟨h.messages m hmem, fun m' hm' hsame => ?_⟩
      rw [s.messages.eq_of_key_eq hm' hmem hsame]
  · obtain ⟨m, model, hjob, rfl, hkey⟩ := hnew.hint id hid
    rw [← hkey]
    exact hmove _ (h.jobs _ hjob)

theorem jobs_step : ∀ j ∈ t.jobs, JobKnown P t j := by
  have hrow : ∀ {e : MessageEmbedding}, e ∈ s.embeddings.rows →
      RowKnown s e.id (messageKey e) := by
    intro e he
    refine ⟨h.rows e he, fun e' he' hid => ?_⟩
    exact messageKey_of_key (h.ids e' he' e he hid)
  intro j hj
  obtain hold | htaken := hmoves.jobs j hj
  · exact (h.jobs j hold).move hmoves
  · refine JobKnown.move (s := s) ?_ hmoves
    cases j with
    | selected m model =>
      refine ⟨h.messages m htaken.1, fun m' hm' hsame => ?_⟩
      rw [s.messages.eq_of_key_eq hm' htaken.1 hsame]
    | found m embeddingId hint =>
      obtain ⟨⟨model, hselected⟩, e, he, rfl, hkey, -⟩ := htaken
      exact ⟨h.jobs _ hselected, hkey ▸ hrow he⟩
    | repoint m embeddingId =>
      obtain ⟨hint, hfound, -⟩ | ⟨⟨model, hselected⟩, e, he, rfl, hkey, -⟩ := htaken
      · have hknown : JobKnown P s (.found m embeddingId hint) := h.jobs _ hfound
        exact hknown
      · exact ⟨h.jobs _ hselected, hkey ▸ hrow he⟩
    | insert m model =>
      have hknown : JobKnown P s (.selected m model) := h.jobs _ htaken
      exact hknown

theorem runs_step : ∀ r ∈ t.runs.rows,
    Known (Message.identity P) t r.messageId r.key ∧ (r.accountId, r.msgKey) ∈ t.reached := by
  have hmove : ∀ {id : Uuid} {i : Uuid × String × String},
      Known (Message.identity P) s id i → Known (Message.identity P) t id i :=
    fun hknown => hknown.move hmoves fun _ _ => id
  intro r hr
  obtain hold | ⟨m, hkey, hid, hfrom⟩ := hmoves.runs r hr
  · exact ⟨hmove (h.runs r hold), hmoves.reached (h.early r hold)⟩
  · have hrun : (r.accountId, r.msgKey) = m.key P := by
      injection hkey with haccount hrest
      injection hrest with hmsgKey _
      exact Prod.ext haccount hmsgKey
    rw [hkey, hid, hrun]
    obtain hpass | ⟨hm, e, he, hhint, hreached⟩ := hfrom
    · exact ⟨hmove (h.pass m hpass).1, hmoves.reached (h.pass m hpass).2⟩
    · refine ⟨hmove ⟨h.messages m hm, fun m' hm' hsame => ?_⟩, ?_⟩
      · rw [s.messages.eq_of_key_eq hm' hm hsame]
      · rw [(h.hints e he m.id hhint).same m hm rfl]
        exact hreached

theorem ended_step : ∀ e ∈ t.embeddings.rows, terminal e.status = true →
    messageKey e ∈ t.reached := by
  intro e' he' hend
  obtain ⟨key, hrows⟩ := hmoves.rows
  obtain ⟨e, he, hcontinues⟩ | hnew := hrows e' he'
  · rw [messageKey_of_key hcontinues.key]
    obtain hended | hreached := hcontinues.status hend
    · exact hmoves.reached (h.ended e he hended)
    · exact hreached
  · rw [hnew.status] at hend
    cases hend

theorem ids_step : ∀ e ∈ t.embeddings.rows, ∀ e' ∈ t.embeddings.rows, e.id = e'.id →
    e.key = e'.key := by
  intro e₁ he₁ e₂ he₂ hid
  obtain ⟨key, hrows⟩ := hmoves.rows
  have hold : ∀ e' ∈ t.embeddings.rows, ∀ e ∈ s.embeddings.rows,
      Continues P s t.reached e e' → e'.id ≠ s.nextId :=
    fun e' _ e he hcontinues => hcontinues.id ▸ Nat.ne_of_lt (h.rows e he)
  obtain ⟨e, he, hcontinues⟩ | hnew := hrows e₁ he₁ <;>
    obtain ⟨e', he', hcontinues'⟩ | hnew' := hrows e₂ he₂
  · rw [hcontinues.key, hcontinues'.key]
    exact h.ids e he e' he' (hcontinues.id.symm.trans (hid.trans hcontinues'.id))
  · exact absurd (hid.trans hnew'.id) (hold e₁ he₁ e he hcontinues)
  · exact absurd (hid.symm.trans hnew.id) (hold e₂ he₂ e' he' hcontinues')
  · exact hnew.key.trans hnew'.key.symm

theorem pass_step : ∀ m ∈ t.pass,
    Known (Message.identity P) t m.id (m.identity P) ∧ m.key P ∈ t.reached := by
  intro m hm
  obtain hold | hcandidate := hmoves.pass m hm
  · obtain ⟨hknown, hreached⟩ := h.pass m hold
    exact ⟨hknown.move hmoves fun _ _ => id, hmoves.reached hreached⟩
  · obtain ⟨hmem, hguard⟩ := List.mem_filter.1 hcandidate
    simp only [Bool.and_eq_true] at hguard
    obtain ⟨e, he, hrow⟩ := List.any_eq_true.1 hguard.1.2
    simp only [Bool.and_eq_true, decide_eq_true_eq] at hrow
    obtain ⟨⟨⟨-, hhint⟩, -⟩, hend⟩ := hrow
    have hknown : Known (Message.identity P) s m.id (m.identity P) := by
      refine ⟨h.messages m hmem, fun m' hm' hsame => ?_⟩
      rw [s.messages.eq_of_key_eq hm' hmem hsame]
    refine ⟨hknown.move hmoves fun _ _ => id, hmoves.reached ?_⟩
    rw [(h.hints e he m.id hhint).same m hmem rfl]
    exact h.ended e he hend

end Step

/-- **The invariant rule**, step by step. -/
theorem inv_step (h : Inv P s) (hstep : step P s l = some t) : Inv P t := by
  have hmoves := step_moves hstep
  exact { messages := messages_step h hmoves
          rows := rows_step h hmoves
          ids := ids_step h hmoves
          hints := hints_step h hmoves
          jobs := jobs_step h hmoves
          runs := fun r hr => (runs_step h hmoves r hr).1
          pass := pass_step h hmoves
          ended := ended_step h hmoves
          early := fun r hr => (runs_step h hmoves r hr).2 }

theorem inv_of_reachable (h : (system P).Reachable TransitionSystem.anyStep s) : Inv P s := by
  refine h.invariant (I := Inv P) ?_ ?_
  · rintro s ⟨model, maxAgeDays, rfl⟩
    exact inv_start model maxAgeDays
  · intro s l t hinv _ hstep
    exact inv_step hinv hstep

end MailVerdict.Analysis.EmbeddingHints
