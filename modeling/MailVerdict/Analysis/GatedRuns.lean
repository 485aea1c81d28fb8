import MailVerdict.Analysis.EmbeddingHints

/-!
# Whom the embedding gate gives a run

While the mirror, the settings and the clock stand still, a row of the current model stays, and
its hint moves only if the message it named was dead, to a live one of its key. Left to the
enqueues, the workers and the pass, every such system comes to a state in which nothing is half
done and no candidate is left; whoever the row's hint names there has had its run.
-/

namespace MailVerdict.Analysis.GatedRuns

open MailVerdict.Computation
open Model.Glacier (Uuid Platform sqlEq_iff)
open Model.EmbeddingCoverage (RowStatus Database)
open Model.EmbeddingGate Model.EmbeddingGate.State
open Analysis.EmbeddingHints

/-! ## The properties -/

def gateStep : State → Label → Prop := fun _ l => l.ofGate = true

instance : ∀ s l, Decidable (gateStep s l) := fun _ l => by
  unfold gateStep; infer_instance

def runsOf (P : Platform) (s : State) (m : Message) : ℕ :=
  s.runs.rows.countP fun r => decide (r.key = m.identity P)

def rowKey (P : Platform) (s : State) (m : Message) : Uuid × String × String :=
  (m.accountId, m.msgKey P, s.model)

def AtEnd (P : Platform) (s : State) (m : Message) : Prop :=
  ∃ e ∈ s.embeddings.rows, e.key = rowKey P s m ∧ terminal e.status = true

def HintLive (s : State) (e : MessageEmbedding) : Prop :=
  ∃ m ∈ s.messages.rows, e.messageId = some m.id ∧ m.live = true

/-- Nothing is half done, the pass has nothing left to find, and neither has an enqueue of the
message. -/
structure Settled (P : Platform) (s : State) (m : Message) : Prop where
  jobs : s.jobs = []
  pass : s.pass = []
  candidates : s.candidates = []
  hint : ∃ e ∈ s.embeddings.rows, e.key = rowKey P s m ∧ HintLive s e

/-- However the enqueues, the workers and the pass take turns, once they have settled the message
has exactly one run, and keeps it whatever happens then. -/
def GetsOne (P : Platform) (s : State) (m : Message) : Prop :=
  ∀ t, (system P).Run gateStep s t → Settled P t m →
    ∀ u, (system P).Run TransitionSystem.anyStep t u → runsOf P u m = 1

/-- The live messages that the hint of a row names, or can come to name because it names none. -/
def MayHold (P : Platform) (s : State) (e : MessageEmbedding) (m : Message) : Prop :=
  (m ∈ s.messages.rows ∧ m.live = true ∧ e.messageId = some m.id) ∨
    (¬HintLive s e ∧ Selectable P s m ∧ m.key P = messageKey e)

/-- The message has its run, is about to be given it, or its row's hint has only live-eligible
messages of its identity to name. -/
def Covered (P : Platform) (s : State) (m : Message) : Prop :=
  (∃ r ∈ s.runs.rows, r.key = m.identity P) ∨ (∃ c ∈ s.pass, c.identity P = m.identity P) ∨
    ∀ e ∈ s.embeddings.rows, e.key = rowKey P s m → ∀ h, MayHold P s e h →
      s.liveEligible h = true ∧ h.identity P = m.identity P

structure InOrder (P : Platform) (s : State) : Prop where
  notEarly : ∀ r ∈ s.runs.rows, (r.accountId, r.msgKey) ∈ s.reached
  atMostOne : ∀ m, runsOf P s m ≤ 1

variable {P : Platform} {s t : State} {l : Label} {m : Message} {e : MessageEmbedding}

/-! ## Counting the runs of an identity -/

theorem runsOf_le_one (P : Platform) (s : State) (m : Message) : runsOf P s m ≤ 1 := by
  rw [runsOf, List.countP_eq_length_filter]
  refine s.runs.length_filter_le_one fun a _ b _ ha hb => ?_
  exact (of_decide_eq_true ha).trans (of_decide_eq_true hb).symm

theorem runsOf_eq_one (h : ∃ r ∈ s.runs.rows, r.key = m.identity P) : runsOf P s m = 1 := by
  obtain ⟨r, hr, hkey⟩ := h
  have hpos : 0 < runsOf P s m := List.countP_pos_iff.2 ⟨r, hr, decide_eq_true hkey⟩
  have hle := runsOf_le_one P s m
  omega

theorem exists_of_runsOf_ne (h : runsOf P s m ≠ 0) : ∃ r ∈ s.runs.rows, r.key = m.identity P := by
  obtain ⟨r, hr, hkey⟩ := List.countP_pos_iff.1 (Nat.pos_of_ne_zero h)
  exact ⟨r, hr, of_decide_eq_true hkey⟩

/-! ## What a step of the gate keeps -/

theorem isLive_iff {id : Uuid} :
    s.isLive P id = true ↔ ∃ m ∈ s.messages.rows, m.id = id ∧ m.live = true := by
  unfold isLive Database.liveMessageIds State.database KeyedTable.view
  simp only [decide_eq_true_eq, List.mem_map, List.mem_filter, List.mem_singleton,
    Bool.and_eq_true]
  constructor
  · rintro ⟨_, ⟨⟨m, hm, rfl⟩, hid, hlive⟩, -⟩
    exact ⟨m, hm, hid, hlive⟩
  · rintro ⟨m, hm, hid, hlive⟩
    exact ⟨m.toMessage, ⟨⟨m, hm, rfl⟩, hid, hlive⟩, hid⟩

/-- A row after a step of the gate: still there, at its end if it was, and with its hint unless
an enqueue re-pointed it. -/
structure Stays (s : State) (e e' : MessageEmbedding) : Prop where
  id : e'.id = e.id
  key : e'.key = e.key
  status : terminal e.status = true → terminal e'.status = true
  hint : e'.messageId = e.messageId ∨ ∃ m, Job.repoint m e.id ∈ s.jobs ∧ e'.messageId = some m.id

theorem Stays.refl : Stays s e e := ⟨rfl, rfl, fun hend => hend, Or.inl rfl⟩

structure Keeps (P : Platform) (s t : State) : Prop where
  rows : ∀ e ∈ s.embeddings.rows, e.model = s.model → ∃ e' ∈ t.embeddings.rows, Stays s e e'
  runs : ∀ r ∈ s.runs.rows, ∃ r' ∈ t.runs.rows, r'.key = r.key
  pass : ∀ m ∈ s.pass, m ∈ t.pass ∨ ∃ r ∈ t.runs.rows, r.key = m.identity P

theorem Keeps.refl : Keeps P s s :=
  ⟨fun e he _ => ⟨e, he, .refl⟩, fun r hr => ⟨r, hr, rfl⟩, fun _ hm => Or.inl hm⟩

theorem stays_of_update {p : MessageEmbedding → Bool} {f : MessageEmbedding → MessageEmbedding}
    (hf : ∀ e, (f e).key = e.key) (h : t.embeddings = s.embeddings.update p f hf)
    (hrow : ∀ e ∈ s.embeddings.rows, p e = true → Stays s e (f e)) :
    ∀ e ∈ s.embeddings.rows, e.model = s.model → ∃ e' ∈ t.embeddings.rows, Stays s e e' := by
  intro e he _
  refine ⟨_, (KeyedTable.mem_of_eq_update hf h).2 ⟨e, he, rfl⟩, ?_⟩
  split
  · rename_i hp
    exact hrow e he hp
  · exact .refl

theorem insertRun_keeps {q r : PipelineRun} (hr : r ∈ s.runs.rows) :
    ∃ r' ∈ (s.insertRun q).runs.rows, r'.key = r.key := by
  by_cases hkey : r.key = q.key
  · obtain ⟨r', hr', hsame, -⟩ := insertRun_self (s := s) q
    exact ⟨r', hr', hsame.trans hkey.symm⟩
  · exact ⟨r, insertRun_of_ne hr hkey, rfl⟩

theorem close_keeps {status : RowStatus} (hend : terminal status = true) :
    Keeps P s
      ((s.close e status).enqueuePipelineRunIfLiveEligible P e.accountId e.messageId) := by
  have hrows : ∀ e' ∈ s.embeddings.rows, e'.model = s.model →
      ∃ e'' ∈ (s.close e status).embeddings.rows, Stays s e' e'' :=
    stays_of_update (by intro _; rfl) rfl fun e' _ _ => ⟨rfl, rfl, fun _ => hend, Or.inl rfl⟩
  obtain h | ⟨m, -, -, -, -, h⟩ :=
    enqueuePipelineRun_cases (P := P) (s := s.close e status) e.accountId e.messageId
  · rw [h]
    exact { Keeps.refl (P := P) (s := s) with rows := hrows }
  · rw [h]
    exact ⟨hrows, fun r hr => insertRun_keeps (s := s.close e status) hr, fun _ hm => Or.inl hm⟩

theorem insertEmbedding_stays {accountId : Uuid} {msgKey model : String}
    {messageId : Option Uuid} : ∀ e ∈ s.embeddings.rows, e.model = s.model →
      ∃ e' ∈ (s.insertEmbedding accountId msgKey messageId model).embeddings.rows, Stays s e e' :=
  fun e he _ => ⟨e, KeyedTable.mem_insertAll.1 he, .refl⟩

/-- **A step of the gate loses no row of the current model, no run and no batch row.** -/
theorem gate_keeps (h : step P s l = some t) (hgate : l.ofGate = true) : Keeps P s t := by
  cases l with
  | selectArrival _ | selectMissing _ =>
    obtain ⟨j, -, rfl⟩ := Option.map_eq_some_iff.1 h
    exact { Keeps.refl (P := P) (s := s) with }
  | embedGlacier _ _ =>
    cases h
    exact { Keeps.refl (P := P) (s := s) with rows := insertEmbedding_stays }
  | advance i =>
    obtain ⟨j, hj, rfl⟩ := Option.map_eq_some_iff.1 h
    cases j with
    | selected m model | found m embeddingId hint => exact { Keeps.refl (P := P) (s := s) with }
    | repoint m embeddingId =>
      refine { Keeps.refl (P := P) (s := s) with rows := ?_ }
      refine stays_of_update (by intro _; rfl) rfl fun e _ hp => ?_
      have hid : e.id = embeddingId := of_decide_eq_true hp
      exact ⟨rfl, rfl, fun hend => hend, Or.inr ⟨m, hid ▸ List.mem_of_getElem? hj, rfl⟩⟩
    | insert m model =>
      exact { Keeps.refl (P := P) (s := s) with rows := insertEmbedding_stays }
  | claim id workerId | release id =>
    cases h
    refine { Keeps.refl (P := P) (s := s) with rows := ?_ }
    refine stays_of_update (by intro _; rfl) rfl fun e _ hp => ?_
    rw [Bool.and_eq_true, decide_eq_true_eq, decide_eq_true_eq] at hp
    refine ⟨rfl, rfl, fun hend => ?_, Or.inl rfl⟩
    rw [hp.2] at hend
    cases hend
  | writeResult id workerId model =>
    obtain ⟨e, -, status, -, hend, rfl⟩ := ends_row (Or.inl ⟨model, h⟩)
    exact close_keeps hend
  | fail id workerId =>
    obtain ⟨e, -, status, -, hend, rfl⟩ := ends_row (Or.inr h)
    exact close_keeps hend
  | prune =>
    cases h
    refine { Keeps.refl (P := P) (s := s) with rows := ?_ }
    intro e he hmodel
    refine ⟨e, KeyedTable.mem_filter.2 ⟨he, ?_⟩, .refl⟩
    rw [decide_eq_true hmodel, Bool.true_or]
  | scan =>
    obtain ⟨hpass, hscan⟩ := Option.ite_none_right_eq_some.1 h
    cases hscan
    refine { Keeps.refl (P := P) (s := s) with pass := ?_ }
    rw [hpass]
    exact fun m hm => absurd hm List.not_mem_nil
  | insertNext =>
    obtain ⟨m, rest, hpass, rfl⟩ := insertNext_cases h
    refine { Keeps.refl (P := P) (s := s) with runs := ?_, pass := ?_ }
    · exact fun r hr => insertRun_keeps (s := { s with pass := rest }) hr
    · intro m' hm'
      rw [hpass] at hm'
      obtain rfl | hrest := List.mem_cons.1 hm'
      · obtain ⟨r, hr, hkey, -⟩ := insertRun_self (s := { s with pass := rest }) (m'.run P)
        exact Or.inr ⟨r, hr, hkey⟩
      · exact Or.inl hrest
  | tick _ | configure _ _ | folder _ | folderSynced _ | mirror _ | move _ _ | expunge _
  | revert _ | purge _ | toGlacier _ | fromGlacier _ => cases hgate

/-! ## The hints while the mirror stands still -/

theorem ownEmbedding_iff {model : String} :
    (s.database P).ownEmbeddingExists model m.toMessage = true ↔
      ∃ e ∈ s.embeddings.rows, e.accountId = m.accountId ∧ e.messageId = some m.id ∧
        e.model = model := by
  unfold Database.ownEmbeddingExists State.database KeyedTable.view
  simp only [List.any_map, List.any_eq_true, Function.comp_apply, Bool.and_eq_true,
    decide_eq_true_eq, and_assoc]

theorem sibling_iff {model : String} :
    (s.database P).siblingHoldsEmbedding model m.toMessage = true ↔
      ∃ e ∈ s.embeddings.rows, ∃ h ∈ s.messages.rows, e.messageId = some h.id ∧
        e.accountId = m.accountId ∧ e.model = model ∧ h.accountId = m.accountId ∧
        Model.Glacier.sqlEq h.messageId m.messageId = true ∧ h.id ≠ m.id ∧ h.live = true := by
  unfold Database.siblingHoldsEmbedding State.database KeyedTable.view
  simp only [List.any_map, List.any_eq_true, Function.comp_apply, Bool.and_eq_true,
    decide_eq_true_eq, and_assoc]

/-- A re-pointed row: the message its hint named was dead. -/
def Retaken (P : Platform) (s : State) (e e' : MessageEmbedding) : Prop :=
  ¬HintLive s e ∧ ∃ m, Selectable P s m ∧ m.key P = messageKey e ∧ e'.messageId = some m.id

/-- An enqueue that began after `s` moves no hint that was live then. -/
def Waiting (P : Platform) (s : State) : Job → Prop
  | .selected m _ => Selectable P s m
  | .found m embeddingId hint => Selectable P s m ∧ ∀ e ∈ s.embeddings.rows,
      e.model = s.model → e.id = embeddingId →
        m.key P = messageKey e ∧ (HintLive s e → e.messageId = some hint)
  | .repoint m embeddingId => Selectable P s m ∧ ∀ e ∈ s.embeddings.rows,
      e.model = s.model → e.id = embeddingId → m.key P = messageKey e ∧ ¬HintLive s e
  | .insert _ _ => True

/-- What the gate has made of a state in which no enqueue was half done. -/
structure Since (P : Platform) (s t : State) : Prop where
  unchanged : Unchanged s t
  rows : ∀ e ∈ s.embeddings.rows, e.model = s.model → ∃ e' ∈ t.embeddings.rows,
    e'.id = e.id ∧ e'.key = e.key ∧ (terminal e.status = true → terminal e'.status = true) ∧
      (e'.messageId = e.messageId ∨ Retaken P s e e')
  jobs : ∀ j ∈ t.jobs, Waiting P s j

theorem Since.refl (hjobs : s.jobs = []) : Since P s s where
  unchanged := .refl
  rows e he _ := ⟨e, he, rfl, rfl, fun hend => hend, Or.inl rfl⟩
  jobs j hj := by
    rw [hjobs] at hj
    cases hj

theorem Since.hint (hsince : Since P s t) (he : e ∈ s.embeddings.rows) (hmodel : e.model = s.model)
    (hlive : HintLive s e) : ∃ e' ∈ t.embeddings.rows, e'.id = e.id ∧ e'.key = e.key ∧
      e'.messageId = e.messageId := by
  obtain ⟨e', he', hid, hkey, -, hsame | ⟨hdead, -⟩⟩ := hsince.rows e he hmodel
  · exact ⟨e', he', hid, hkey, hsame⟩
  · exact absurd hlive hdead

theorem Since.isMissing (hsince : Since P s t) (hm : m ∈ s.messages.rows)
    (hmissing : t.isMissing P m = true) : s.isMissing P m = true := by
  have hlive := live_of_isMissing hmissing
  unfold State.isMissing at hmissing ⊢
  simp only [Bool.and_eq_true, decide_eq_true_eq, Bool.not_eq_true'] at hmissing ⊢
  obtain ⟨⟨hscope, hown⟩, hsibling⟩ := hmissing
  refine ⟨⟨?_, ?_⟩, ?_⟩
  · unfold Database.scope State.database at hscope ⊢
    rw [hsince.unchanged.messages, hsince.unchanged.folders] at hscope
    exact hscope
  · rw [Bool.eq_false_iff, Ne, ownEmbedding_iff] at hown ⊢
    rintro ⟨e, he, haccount, hhint, hmodel⟩
    obtain ⟨e', he', -, hkey, hsame⟩ := hsince.hint he hmodel ⟨m, hm, hhint, hlive⟩
    injection hkey with haccount' hrest
    injection hrest with _ hmodel'
    exact hown ⟨e', he', haccount'.trans haccount, hsame.trans hhint,
      (hmodel'.trans hmodel).trans hsince.unchanged.model.symm⟩
  · rw [Bool.eq_false_iff, Ne, sibling_iff] at hsibling ⊢
    rintro ⟨e, he, h, hh, hhint, haccount, hmodel, hrest⟩
    have hsiblingLive : h.live = true := hrest.2.2.2
    obtain ⟨e', he', -, hkey, hsame⟩ := hsince.hint he hmodel ⟨h, hh, hhint, hsiblingLive⟩
    injection hkey with haccount' hrest'
    injection hrest' with _ hmodel'
    refine hsibling ⟨e', he', h, hsince.unchanged.messages.symm ▸ hh, hsame.trans hhint,
      haccount'.trans haccount, ?_, hrest⟩
    exact (hmodel'.trans hmodel).trans hsince.unchanged.model.symm

theorem Since.selectable (hsince : Since P s t) (h : Selectable P t m) : Selectable P s m := by
  obtain ⟨hm, hlive, hdraft | hmissing⟩ := h
  · exact ⟨hsince.unchanged.messages ▸ hm, hlive, Or.inl hdraft⟩
  · have hmem : m ∈ s.messages.rows := hsince.unchanged.messages ▸ hm
    exact ⟨hmem, hlive, Or.inr (hsince.isMissing hmem hmissing)⟩

theorem Since.row (hsince : Since P s t) (hinv : Inv P t) (he : e ∈ s.embeddings.rows)
    (hmodel : e.model = s.model) {e' : MessageEmbedding} (he' : e' ∈ t.embeddings.rows)
    (hid : e.id = e'.id) : e'.key = e.key ∧ (HintLive s e → e'.messageId = e.messageId) := by
  obtain ⟨e'', he'', hid'', hkey, -, hhint⟩ := hsince.rows e he hmodel
  obtain rfl : e'' = e' := t.embeddings.eq_of_key_eq he'' he'
    (hinv.ids e'' he'' e' he' (hid''.trans hid))
  refine ⟨hkey, fun hlive => ?_⟩
  obtain hsame | ⟨hdead, -⟩ := hhint
  · exact hsame
  · exact absurd hlive hdead

theorem waiting_of_taken (hsince : Since P s t) (hinv : Inv P t) {j : Job} (h : Taken P t j) :
    Waiting P s j := by
  cases j with
  | selected m model => exact hsince.selectable h
  | found m embeddingId hint =>
    obtain ⟨⟨model, hselected⟩, e', he', rfl, hkey, hhint⟩ := h
    refine ⟨hsince.jobs _ hselected, fun e he hmodel hid => ?_⟩
    obtain ⟨hsame, hkept⟩ := hsince.row hinv he hmodel he' hid
    exact ⟨hkey.symm.trans (messageKey_of_key hsame), fun hlive => (hkept hlive).symm.trans hhint⟩
  | repoint m embeddingId =>
    obtain ⟨hint, hfound, hdead⟩ | ⟨⟨model, hselected⟩, e', he', rfl, hkey, hnone⟩ := h
    · obtain ⟨hselectable, hrow⟩ := hsince.jobs _ hfound
      refine ⟨hselectable, fun e he hmodel hid => ?_⟩
      obtain ⟨hkey, hhint⟩ := hrow e he hmodel hid
      refine ⟨hkey, fun hlive => ?_⟩
      obtain ⟨h, hh, hnamed, hhlive⟩ := hlive
      have hsame : hint = h.id :=
        Option.some.inj ((hhint ⟨h, hh, hnamed, hhlive⟩).symm.trans hnamed)
      rw [Bool.eq_false_iff, Ne, isLive_iff] at hdead
      exact hdead ⟨h, hsince.unchanged.messages.symm ▸ hh, hsame.symm, hhlive⟩
    · refine ⟨hsince.jobs _ hselected, fun e he hmodel hid => ?_⟩
      obtain ⟨hsame, hkept⟩ := hsince.row hinv he hmodel he' hid
      refine ⟨hkey.symm.trans (messageKey_of_key hsame), fun hlive => ?_⟩
      have hnamed := (hkept hlive).symm.trans hnone
      obtain ⟨h, -, hsome, -⟩ := hlive
      exact absurd (hsome.symm.trans hnamed) (by simp)
  | insert m model => trivial

theorem since_step (hsince : Since P s t) (hinv : Inv P t) {u : State}
    (h : step P t l = some u) (hgate : l.ofGate = true) : Since P s u := by
  refine ⟨hsince.unchanged.trans (gate_unchanged h hgate), fun e he hmodel => ?_, fun j hj => ?_⟩
  · obtain ⟨e', he', hid, hkey, hend, hhint⟩ := hsince.rows e he hmodel
    have hmodel' : e'.model = t.model := by
      injection hkey with _ hrest
      injection hrest with _ hsame
      exact (hsame.trans hmodel).trans hsince.unchanged.model.symm
    obtain ⟨e'', he'', hstays⟩ := (gate_keeps h hgate).rows e' he' hmodel'
    refine ⟨e'', he'', hstays.id.trans hid, hstays.key.trans hkey,
      fun hended => hstays.status (hend hended), ?_⟩
    obtain hsame | ⟨m, hjob, hnamed⟩ := hstays.hint
    · obtain hkept | ⟨hdead, m, hm, hmkey, hnamed⟩ := hhint
      · exact Or.inl (hsame.trans hkept)
      · exact Or.inr ⟨hdead, m, hm, hmkey, hsame.trans hnamed⟩
    · obtain ⟨hselectable, hrow⟩ := hsince.jobs _ hjob
      obtain ⟨hmkey, hdead⟩ := hrow e he hmodel hid.symm
      exact Or.inr ⟨hdead, m, hselectable, hmkey, hnamed⟩
  · obtain hold | htaken := (step_moves h).jobs j hj
    · exact hsince.jobs j hold
    · exact waiting_of_taken hsince hinv htaken

theorem since_of_run (hinv : Inv P s) (hjobs : s.jobs = [])
    (h : (system P).Run gateStep s t) : Since P s t ∧ Inv P t := by
  refine h.preserves (I := fun t => Since P s t ∧ Inv P t) ?_ ⟨.refl hjobs, hinv⟩
  intro t l u hI hgate hstep
  exact ⟨since_step hI.1 hI.2 hstep hgate, inv_step hI.2 hstep⟩

/-! ## A run that is there stays -/

theorem runs_kept (h : step P s l = some t) {r : PipelineRun} (hr : r ∈ s.runs.rows) :
    ∃ r' ∈ t.runs.rows, r'.key = r.key := by
  cases hgate : l.ofGate with
  | true => exact (gate_keeps h hgate).runs r hr
  | false =>
    refine ⟨r, ?_, rfl⟩
    cases l with
    | tick _ | configure _ _ | folder _ | mirror _ | move _ _ | expunge _ | revert _ | purge _
    | toGlacier _ =>
      cases h
      exact hr
    | folderSynced _ | fromGlacier _ =>
      obtain ⟨x, -, rfl⟩ := Option.map_eq_some_iff.1 h
      exact hr
    | selectArrival _ | selectMissing _ | embedGlacier _ _ | advance _ | claim _ _ | release _
    | writeResult _ _ _ | fail _ _ | prune | scan | insertNext => cases hgate

theorem hasRun_of_run (h : (system P).Run TransitionSystem.anyStep s t)
    (hrun : ∃ r ∈ s.runs.rows, r.key = m.identity P) : ∃ r ∈ t.runs.rows, r.key = m.identity P := by
  refine h.preserves (I := fun t => ∃ r ∈ t.runs.rows, r.key = m.identity P) ?_ hrun
  rintro t l u ⟨r, hr, hkey⟩ - hstep
  obtain ⟨r', hr', hsame⟩ := runs_kept hstep hr
  exact ⟨r', hr', hsame.trans hkey⟩

/-- The message has its run, or an open pass holds one for it. -/
def Secured (P : Platform) (s : State) (m : Message) : Prop :=
  (∃ r ∈ s.runs.rows, r.key = m.identity P) ∨ ∃ c ∈ s.pass, c.identity P = m.identity P

theorem secured_of_run (h : (system P).Run gateStep s t) (hsecured : Secured P s m) :
    Secured P t m := by
  refine h.preserves (I := fun t => Secured P t m) ?_ hsecured
  intro t l u hsecured hgate hstep
  have hkeeps := gate_keeps hstep hgate
  obtain ⟨r, hr, hkey⟩ | ⟨c, hc, hidentity⟩ := hsecured
  · obtain ⟨r', hr', hsame⟩ := hkeeps.runs r hr
    exact Or.inl ⟨r', hr', hsame.trans hkey⟩
  · obtain hpass | ⟨r, hr, hkey⟩ := hkeeps.pass c hc
    · exact Or.inr ⟨c, hpass, hidentity⟩
    · exact Or.inl ⟨r, hr, hkey.trans hidentity⟩

/-! ## Whoever may hold the hint has its run -/

theorem liveEligible_eq (h : Unchanged s t) : t.liveEligible m = s.liveEligible m := by
  unfold liveEligible
  rw [h.folders, h.folderStates, h.now, h.maxAgeDays]

theorem embedded_iff : s.embedded m = true ↔
    ∃ e ∈ s.embeddings.rows, e.accountId = m.accountId ∧ e.messageId = some m.id ∧
      e.model = s.model ∧ terminal e.status = true := by
  unfold embedded
  simp only [List.any_eq_true, Bool.and_eq_true, decide_eq_true_eq, and_assoc]

theorem hasRun_iff : s.hasRun m = true ↔
    ∃ r ∈ s.runs.rows, r.accountId = m.accountId ∧ r.messageId = m.id := by
  unfold hasRun
  simp only [List.any_eq_true, Bool.and_eq_true, decide_eq_true_eq]

theorem mem_candidates : m ∈ s.candidates ↔
    m ∈ s.messages.rows ∧ s.liveEligible m = true ∧ s.embedded m = true ∧ s.hasRun m = false := by
  unfold candidates
  rw [List.mem_filter, Bool.and_eq_true, Bool.and_eq_true, Bool.not_eq_true', and_assoc]

theorem run_of_hasRun (hinv : Inv P s) (hm : m ∈ s.messages.rows) (h : s.hasRun m = true) :
    ∃ r ∈ s.runs.rows, r.key = m.identity P ∧ r.messageId = m.id := by
  obtain ⟨r, hr, -, hid⟩ := hasRun_iff.1 h
  exact ⟨r, hr, ((hinv.runs r hr).same m hm hid.symm).symm, hid⟩

theorem key_of_hint (hinv : Inv P s) (he : e ∈ s.embeddings.rows) (hm : m ∈ s.messages.rows)
    (hhint : e.messageId = some m.id) : m.key P = messageKey e :=
  (hinv.hints e he m.id hhint).same m hm rfl

theorem run_of_holder (hinv : Inv P s) (hcandidates : s.candidates = [])
    (he : e ∈ s.embeddings.rows) (hmodel : e.model = s.model) (hend : terminal e.status = true)
    (hm : m ∈ s.messages.rows) (hhint : e.messageId = some m.id)
    (heligible : s.liveEligible m = true) : ∃ r ∈ s.runs.rows, r.key = m.identity P := by
  have haccount : e.accountId = m.accountId :=
    (congrArg Prod.fst (key_of_hint hinv he hm hhint)).symm
  have hembedded := embedded_iff.2 ⟨e, he, haccount, hhint, hmodel, hend⟩
  cases hrun : s.hasRun m with
  | true =>
    obtain ⟨r, hr, hkey, -⟩ := run_of_hasRun hinv hm hrun
    exact ⟨r, hr, hkey⟩
  | false =>
    have hcandidate := mem_candidates.2 ⟨hm, heligible, hembedded, hrun⟩
    rw [hcandidates] at hcandidate
    cases hcandidate

theorem rowKey_eq (h : Unchanged s t) : rowKey P t m = rowKey P s m := by
  rw [rowKey, h.model, rowKey]

/-- A covered mail whose embedding has ended gets its one run. -/
theorem gets_of_covered (hinv : Inv P s) (hjobs : s.jobs = []) (hend : AtEnd P s m)
    (hcovered : Covered P s m) : GetsOne P s m := by
  intro t hrun hsettled u hlater
  refine runsOf_eq_one (hasRun_of_run hlater ?_)
  have hsecured : Secured P s m → ∃ r ∈ t.runs.rows, r.key = m.identity P := by
    intro hsecured
    obtain hthere | ⟨c, hc, -⟩ := secured_of_run hrun hsecured
    · exact hthere
    · rw [hsettled.pass] at hc
      cases hc
  obtain hthere | hpass | hholders := hcovered
  · exact hsecured (Or.inl hthere)
  · exact hsecured (Or.inr hpass)
  · obtain ⟨hsince, hinv'⟩ := since_of_run hinv hjobs hrun
    obtain ⟨e, he, hkey, hended⟩ := hend
    have hmodel : e.model = s.model := congrArg (fun k => k.2.2) hkey
    obtain ⟨e', he', -, hkey', hend', hhint⟩ := hsince.rows e he hmodel
    -- the row of the settled state is this one, and names a live message
    obtain ⟨e'', he'', hkey'', h, hh, hnamed, hlive⟩ := hsettled.hint
    obtain rfl : e'' = e' := t.embeddings.eq_of_key_eq he'' he' (by
      rw [hkey'', rowKey_eq hsince.unchanged, hkey', hkey])
    have hmem : h ∈ s.messages.rows := hsince.unchanged.messages ▸ hh
    have hmay : MayHold P s e h := by
      obtain hsame | ⟨hdead, m', hselectable, hmkey, hnamed'⟩ := hhint
      · exact Or.inl ⟨hmem, hlive, hsame.symm.trans hnamed⟩
      · obtain rfl : m' = h := s.messages.eq_of_key_eq hselectable.1 hmem
          (Option.some.inj (hnamed'.symm.trans hnamed))
        exact Or.inr ⟨hdead, hselectable, hmkey⟩
    obtain ⟨heligible, hidentity⟩ := hholders e he hkey h hmay
    rw [← hidentity]
    refine run_of_holder hinv' hsettled.candidates he'' ?_ (hend' hended) hh hnamed ?_
    · exact (congrArg (fun k => k.2.2) hkey'').trans rfl
    · rw [liveEligible_eq hsince.unchanged]
      exact heligible

end MailVerdict.Analysis.GatedRuns
