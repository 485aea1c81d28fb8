import MailVerdict.Analysis.EmbeddingReadiness
import MailVerdict.Analysis.GatedRuns

/-!
# Where the embedding gate settles

Every pass takes candidates and makes none, so passes alone come to a state without candidates,
and an enqueue of four statements names a live message in a dead hint. With these two a state in
which nothing is half done is brought to one that has settled, over any message that may hold
the hint: the message has its run there exactly if each of these is live-eligible and of its
identity.
-/

namespace MailVerdict.Analysis.SettledGate

open MailVerdict.Computation
open Model.Glacier (Uuid Platform)
open Model.EmbeddingGate Model.EmbeddingGate.State
open Analysis.EmbeddingHints Analysis.GatedRuns

variable {P : Platform} {s t : State} {m : Message} {e : MessageEmbedding}

/-! ## One pass -/

def insertRuns (P : Platform) (s : State) (ms : List Message) : State :=
  ms.foldl (fun u c => u.insertRun (c.run P)) s

theorem insertRuns_frame (ms : List Message) :
    ∃ runs, insertRuns P s ms = { s with runs := runs } := by
  induction ms generalizing s with
  | nil => exact ⟨s.runs, rfl⟩
  | cons c ms ih =>
    obtain ⟨runs, h⟩ := ih (s := s.insertRun (c.run P))
    exact ⟨runs, h⟩

theorem mem_insertRuns {ms : List Message} {r : PipelineRun}
    (hr : r ∈ (insertRuns P s ms).runs.rows) :
    r ∈ s.runs.rows ∨ ∃ c ∈ ms, r.key = c.identity P := by
  induction ms generalizing s with
  | nil => exact Or.inl hr
  | cons c ms ih =>
    obtain hold | ⟨c', hc', hkey⟩ := ih hr
    · obtain ⟨hold, -⟩ | ⟨hkey, -⟩ := mem_insertRun hold
      · exact Or.inl hold
      · exact Or.inr ⟨c, List.mem_cons_self, hkey⟩
    · exact Or.inr ⟨c', List.mem_cons_of_mem c hc', hkey⟩

/-- The run of a message's identity, and it names the message. -/
def Served (P : Platform) (s : State) (m : Message) : Prop :=
  ∃ r ∈ s.runs.rows, r.key = m.identity P ∧ r.messageId = m.id

theorem hasRun_of_served (h : Served P s m) : s.hasRun m = true := by
  obtain ⟨r, hr, hkey, hid⟩ := h
  exact hasRun_iff.2 ⟨r, hr, congrArg Prod.fst hkey, hid⟩

theorem served_insertRuns {ms : List Message} (h : Served P s m)
    (hsame : ∀ c ∈ ms, c.identity P = m.identity P → c.id = m.id) :
    Served P (insertRuns P s ms) m := by
  induction ms generalizing s with
  | nil => exact h
  | cons c ms ih =>
    refine ih (s := s.insertRun (c.run P)) ?_ fun c' hc' => hsame c' (List.mem_cons_of_mem c hc')
    obtain ⟨r, hr, hkey, hid⟩ := h
    by_cases hidentity : c.identity P = m.identity P
    · obtain ⟨r', hr', hkey', hid'⟩ := insertRun_self (s := s) (c.run P)
      exact ⟨r', hr', hkey'.trans hidentity, hid'.trans (hsame c List.mem_cons_self hidentity)⟩
    · refine ⟨r, insertRun_of_ne hr fun hwrong => hidentity ?_, hkey, hid⟩
      exact hwrong.symm.trans hkey

theorem served_of_mem {ms : List Message} (hm : m ∈ ms)
    (hsame : ∀ c ∈ ms, c.identity P = m.identity P → c.id = m.id) :
    Served P (insertRuns P s ms) m := by
  induction ms generalizing s with
  | nil => cases hm
  | cons c ms ih =>
    have hrest : ∀ c' ∈ ms, c'.identity P = m.identity P → c'.id = m.id :=
      fun c' hc' => hsame c' (List.mem_cons_of_mem c hc')
    obtain rfl | htail := List.mem_cons.1 hm
    · obtain ⟨r, hr, hkey, hid⟩ := insertRun_self (s := s) (m.run P)
      exact served_insertRuns (s := s.insertRun (m.run P)) ⟨r, hr, hkey, hid⟩ hrest
    · exact ih htail hrest

def passed (P : Platform) (s : State) : State := insertRuns P { s with pass := [] } s.pass

theorem run_passed (s : State) : (system P).Run gateStep s (passed P s) := by
  obtain ⟨ms, hms⟩ : ∃ ms, s.pass = ms := ⟨_, rfl⟩
  induction ms generalizing s with
  | nil =>
    have hsame : passed P s = s := by
      rw [passed, hms]
      show ({ s with pass := [] } : State) = s
      rw [← hms]
    rw [hsame]
    exact .refl
  | cons c ms ih =>
    have hstep : step P s .insertNext = some ({ s with pass := ms }.insertRun (c.run P)) := by
      show s.insertNext P = _
      rw [insertNext, hms]
    have hsame : passed P s = passed P ({ s with pass := ms }.insertRun (c.run P)) := by
      rw [passed, hms]
      rfl
    rw [hsame]
    exact (ih _ rfl).head (l := Label.insertNext) rfl hstep

theorem embedded_unique (hinv : Inv P s) {c : Message} (hc : c ∈ s.messages.rows)
    (hm : m ∈ s.messages.rows) (hcEmbedded : s.embedded c = true) (hmEmbedded : s.embedded m = true)
    (h : c.identity P = m.identity P) : c.id = m.id := by
  obtain ⟨e, he, -, hhint, hmodel, -⟩ := embedded_iff.1 hcEmbedded
  obtain ⟨e', he', -, hhint', hmodel', -⟩ := embedded_iff.1 hmEmbedded
  have hkey : messageKey e = messageKey e' := by
    rw [← key_of_hint hinv he hc hhint, ← key_of_hint hinv he' hm hhint', key_of_identity h]
  obtain rfl : e = e' := s.embeddings.eq_of_key_eq he he' (by
    injection hkey with haccount hmsgKey
    exact Prod.ext haccount (Prod.ext hmsgKey (hmodel.trans hmodel'.symm)))
  exact Option.some.inj (hhint.symm.trans hhint')

theorem passed_frame (s : State) :
    ∃ runs, passed P s = { s with pass := [], runs := runs } := by
  obtain ⟨runs, h⟩ := insertRuns_frame (P := P) (s := { s with pass := [] }) s.pass
  exact ⟨runs, h⟩

/-- **A pass takes candidates and makes none.** -/
theorem candidates_shrink (hinv : Inv P s) (hsome : s.candidates ≠ []) :
    (passed P s.scan).candidates.length < s.candidates.length := by
  obtain ⟨runs, hframe⟩ := passed_frame (P := P) s.scan
  have hbatch : ∀ c ∈ s.scan.pass, c ∈ s.candidates :=
    fun c hc => (List.mem_insertionSort _).1 (List.mem_of_mem_take hc)
  have hsame : ∀ m ∈ s.messages.rows, s.embedded m = true → ∀ c ∈ s.scan.pass,
      c.identity P = m.identity P → c.id = m.id := by
    intro m hm hembedded c hc
    obtain ⟨hmem, -, hcEmbedded, -⟩ := mem_candidates.1 (hbatch c hc)
    exact embedded_unique hinv hmem hm hcEmbedded hembedded
  -- what the pass leaves was a candidate before it
  have hsub : ∀ m ∈ (passed P s.scan).candidates, m ∈ s.candidates := by
    intro m hm
    obtain ⟨hmem, heligible, hembedded, hrun⟩ := mem_candidates.1 hm
    rw [hframe] at hmem heligible hembedded
    refine mem_candidates.2 ⟨hmem, heligible, hembedded, Bool.eq_false_iff.2 fun hthere => ?_⟩
    have hbefore : Served P s m := run_of_hasRun hinv hmem hthere
    have hserved : Served P (passed P s.scan) m :=
      served_insertRuns (s := { s.scan with pass := [] }) hbefore (hsame m hmem hembedded)
    rw [hasRun_of_served hserved] at hrun
    cases hrun
  -- and the first of the batch is none any longer
  obtain ⟨c, hc⟩ : ∃ c, c ∈ s.scan.pass := by
    have hlength : 0 < s.scan.pass.length := by
      have hpos := List.length_pos_of_ne_nil hsome
      show 0 < ((s.candidates.insertionSort receivedOrder).take reconcileBatchSize).length
      rw [List.length_take, List.length_insertionSort, reconcileBatchSize]
      omega
    obtain ⟨c, rest, hcons⟩ := List.exists_cons_of_length_pos hlength
    exact ⟨c, hcons ▸ List.mem_cons_self⟩
  have hgone : c ∉ (passed P s.scan).candidates := by
    intro hstill
    obtain ⟨hmem, -, hembedded, -⟩ := mem_candidates.1 (hbatch c hc)
    have hserved : Served P (passed P s.scan) c := served_of_mem hc (hsame c hmem hembedded)
    obtain ⟨-, -, -, hrun⟩ := mem_candidates.1 hstill
    rw [hasRun_of_served hserved] at hrun
    cases hrun
  have hnodup : (c :: (passed P s.scan).candidates).Nodup := by
    refine List.nodup_cons.2 ⟨hgone, ?_⟩
    exact (List.Nodup.of_map _ (passed P s.scan).messages.primaryKey).filter _
  have hle : (c :: (passed P s.scan).candidates).length ≤ s.candidates.length := by
    refine hnodup.length_le_of_subset fun m hm => ?_
    obtain rfl | htail := List.mem_cons.1 hm
    · exact hbatch m hc
    · exact hsub m htail
  exact hle

/-! ## Passes until no candidate is left -/

structure Drained (P : Platform) (s t : State) : Prop where
  run : (system P).Run gateStep s t
  jobs : t.jobs = s.jobs
  embeddings : t.embeddings = s.embeddings
  runs : ∀ r ∈ t.runs.rows, r ∈ s.runs.rows ∨ (∃ c ∈ s.pass, r.key = c.identity P) ∨
    ∃ c ∈ s.messages.rows, s.liveEligible c = true ∧ s.embedded c = true ∧ r.key = c.identity P

theorem drained_passed (s : State) : Drained P s (passed P s) := by
  obtain ⟨runs, hframe⟩ := passed_frame (P := P) s
  refine ⟨run_passed s, by rw [hframe], by rw [hframe], fun r hr => ?_⟩
  obtain hold | ⟨c, hc, hkey⟩ := mem_insertRuns hr
  · exact Or.inl hold
  · exact Or.inr (Or.inl ⟨c, hc, hkey⟩)

theorem drained_scan (hpass : s.pass = []) : Drained P s (passed P s.scan) := by
  obtain ⟨runs, hframe⟩ := passed_frame (P := P) s.scan
  have hstep : step P s .scan = some s.scan := if_pos hpass
  refine ⟨(run_passed s.scan).head (l := Label.scan) rfl hstep, by rw [hframe]; rfl,
    by rw [hframe]; rfl, fun r hr => ?_⟩
  obtain hold | ⟨c, hc, hkey⟩ := mem_insertRuns hr
  · exact Or.inl hold
  · have hcandidate : c ∈ s.candidates :=
      (List.mem_insertionSort _).1 (List.mem_of_mem_take hc)
    obtain ⟨hmem, heligible, hembedded, -⟩ := mem_candidates.1 hcandidate
    exact Or.inr (Or.inr ⟨c, hmem, heligible, hembedded, hkey⟩)

theorem unchanged_of_run (h : (system P).Run gateStep s t) : Unchanged s t := by
  refine h.preserves (I := fun t => Unchanged s t) ?_ .refl
  intro t l u hsame hgate hstep
  exact hsame.trans (gate_unchanged hstep hgate)

theorem inv_of_run (hinv : Inv P s) (h : (system P).Run gateStep s t) : Inv P t := by
  refine h.preserves (I := Inv P) ?_ hinv
  intro t l u hinv _ hstep
  exact inv_step hinv hstep

theorem Drained.trans {u : State} (h : Drained P s t) (h' : Drained P t u) (hpass : t.pass = []) :
    Drained P s u := by
  have hsame := unchanged_of_run h.run
  refine ⟨h.run.trans h'.run, h'.jobs.trans h.jobs, h'.embeddings.trans h.embeddings,
    fun r hr => ?_⟩
  obtain hold | ⟨c, hc, -⟩ | ⟨c, hc, heligible, hembedded, hkey⟩ := h'.runs r hr
  · exact h.runs r hold
  · rw [hpass] at hc
    cases hc
  · refine Or.inr (Or.inr ⟨c, hsame.messages ▸ hc, ?_, ?_, hkey⟩)
    · rw [← liveEligible_eq hsame]
      exact heligible
    · rw [embedded, h.embeddings, hsame.model] at hembedded
      exact hembedded

theorem drain_passes (n : ℕ) (hn : s.candidates.length ≤ n) (hinv : Inv P s) (hpass : s.pass = []) :
    ∃ t, Drained P s t ∧ t.pass = [] ∧ t.candidates = [] := by
  induction n generalizing s with
  | zero =>
    refine ⟨s, ⟨.refl, rfl, rfl, fun _ hr => Or.inl hr⟩, hpass, ?_⟩
    exact List.eq_nil_of_length_eq_zero (Nat.le_zero.1 hn)
  | succ n ih =>
    by_cases hnone : s.candidates = []
    · exact ⟨s, ⟨.refl, rfl, rfl, fun _ hr => Or.inl hr⟩, hpass, hnone⟩
    · have hshrink := candidates_shrink hinv hnone
      have hdrained := drained_scan (P := P) hpass
      obtain ⟨runs, hframe⟩ := passed_frame (P := P) s.scan
      have hpass' : (passed P s.scan).pass = [] := by rw [hframe]
      obtain ⟨t, ht, htpass, htnone⟩ :=
        ih (by omega) (inv_of_run hinv hdrained.run) hpass'
      exact ⟨t, hdrained.trans ht hpass', htpass, htnone⟩

theorem drain (hinv : Inv P s) : ∃ t, Drained P s t ∧ t.pass = [] ∧ t.candidates = [] := by
  have hdrained := drained_passed (P := P) s
  obtain ⟨runs, hframe⟩ := passed_frame (P := P) s
  have hpass : (passed P s).pass = [] := by rw [hframe]
  obtain ⟨t, ht, htpass, htnone⟩ := drain_passes _ (Nat.le_refl _)
    (inv_of_run hinv hdrained.run) hpass
  exact ⟨t, hdrained.trans ht hpass, htpass, htnone⟩

/-! ## An enqueue that finds a dead hint -/

/-- What one enqueue does to a state in which no other is half done. -/
structure Renamed (P : Platform) (s t : State) (e : MessageEmbedding) (m : Message) : Prop where
  run : (system P).Run gateStep s t
  jobs : t.jobs = []
  pass : t.pass = s.pass
  runs : t.runs = s.runs
  row : { e with messageId := some m.id } ∈ t.embeddings.rows

theorem repoint_renames (he : e ∈ s.embeddings.rows) :
    Renamed P { s with jobs := [.repoint m e.id] }
      { s.repoint m e.id with jobs := [] } e m := by
  refine ⟨?_, rfl, rfl, rfl, ?_⟩
  · exact TransitionSystem.Run.refl.step (l := Label.advance 0) rfl rfl
  · refine (KeyedTable.mem_of_eq_update (by intro _; rfl) rfl).2 ⟨e, he, ?_⟩
    rw [if_pos (decide_eq_true rfl)]

theorem step_advance {j j' : Job}
    (h : ({ s with jobs := [j] } : State).advance P j = ({ s with jobs := [j] }, some j')) :
    step P { s with jobs := [j] } (.advance 0) = some { s with jobs := [j'] } := by
  have hstep : step P { s with jobs := [j] } (.advance 0) =
      some { (({ s with jobs := [j] } : State).advance P j).1 with
        jobs := [j].eraseIdx 0 ++ (({ s with jobs := [j] } : State).advance P j).2.toList } := rfl
  rw [hstep, h]
  rfl

theorem step_select (hm : Selectable P s m) (hjobs : s.jobs = []) :
    ∃ l, gateStep s l ∧ step P s l = some { s with jobs := [.selected m s.model] } := by
  obtain ⟨hmem, hlive, hdraft | hmissing⟩ := hm
  · refine ⟨.selectArrival m.id, rfl, ?_⟩
    show (s.selectArrival m.id).map _ = _
    rw [selectArrival, KeyedTable.find?_eq_some_iff.2 ⟨hmem, rfl⟩,
      Option.filter_some_pos (by rw [hlive, hdraft]; rfl), Option.map_some, Option.map_some, hjobs,
      List.nil_append]
  · refine ⟨.selectMissing m.id, rfl, ?_⟩
    show (s.selectMissing P m.id).map _ = _
    rw [selectMissing, KeyedTable.find?_eq_some_iff.2 ⟨hmem, rfl⟩,
      Option.filter_some_pos hmissing, Option.map_some, Option.map_some, hjobs, List.nil_append]

/-- **A dead hint comes to name whatever message of its key an enqueue selects.** -/
theorem rename (hm : Selectable P s m) (hjobs : s.jobs = []) (he : e ∈ s.embeddings.rows)
    (hmodel : e.model = s.model) (hkey : m.key P = messageKey e) (hdead : ¬HintLive s e) :
    ∃ t, Renamed P s t e m := by
  have hfind : s.embeddings.find? (m.accountId, m.msgKey P, s.model) = some e := by
    refine KeyedTable.find?_eq_some_iff.2 ⟨he, ?_⟩
    injection hkey with haccount hmsgKey
    exact Prod.ext haccount.symm (Prod.ext hmsgKey.symm hmodel)
  obtain ⟨l, hgate, hselect⟩ := step_select hm hjobs
  have hwrite := repoint_renames (P := P) (m := m) he
  -- from its second statement on, the enqueue re-points the row
  have hrest : (system P).Run gateStep { s with jobs := [.selected m s.model] }
      { s.repoint m e.id with jobs := [] } := by
    cases hhint : e.messageId with
    | none =>
      refine hwrite.run.head (l := Label.advance 0) rfl (step_advance ?_)
      show (_, s.lookUp P m s.model) = _
      rw [lookUp, hfind]
      dsimp only
      rw [hhint]
    | some hint =>
      have hne : hint ≠ m.id := by
        rintro rfl
        exact hdead ⟨m, hm.1, hhint, hm.2.1⟩
      have hcheck : step P { s with jobs := [.found m e.id hint] } (.advance 0) =
          some { s with jobs := [.repoint m e.id] } := by
        refine step_advance ?_
        show (_, s.checkHint P m e.id hint) = _
        rw [checkHint, if_neg]
        rw [isLive_iff]
        rintro ⟨h, hh, rfl, hlive⟩
        exact hdead ⟨h, hh, hhint, hlive⟩
      have hfound : step P { s with jobs := [.selected m s.model] } (.advance 0) =
          some { s with jobs := [.found m e.id hint] } := by
        refine step_advance ?_
        show (_, s.lookUp P m s.model) = _
        rw [lookUp, hfind]
        dsimp only
        rw [hhint]
        dsimp only
        rw [if_neg hne]
      have hchecked : (system P).Run gateStep { s with jobs := [.found m e.id hint] }
          { s.repoint m e.id with jobs := [] } :=
        hwrite.run.head (l := Label.advance 0) rfl hcheck
      exact hchecked.head (l := Label.advance 0) rfl hfound
  exact ⟨_, hrest.head hgate hselect, hwrite.jobs, hwrite.pass, hwrite.runs, hwrite.row⟩

/-! ## Settling over a message that may hold the hint -/

/-- With no job left, the gate comes to settle the mail of an embedding row. -/
theorem settles (hinv : Inv P s) (hjobs : s.jobs = []) (he : e ∈ s.embeddings.rows)
    (hkey : e.key = rowKey P s m) {h : Message} (hmay : MayHold P s e h) :
    ∃ t, (system P).Run gateStep s t ∧ Settled P t m ∧ ∀ r ∈ t.runs.rows,
      r ∈ s.runs.rows ∨ (∃ c ∈ s.pass, r.key = c.identity P) ∨
        ∃ c ∈ s.messages.rows, s.liveEligible c = true ∧ r.key = c.identity P ∧
          (c.key P = messageKey e → c = h) := by
  have hmodel : e.model = s.model := congrArg (fun k => k.2.2) hkey
  -- first the hint
  obtain ⟨u, hrun, hujobs, hupass, huruns, hh, hlive, e', he', hkey', hhint⟩ : ∃ u,
      (system P).Run gateStep s u ∧ u.jobs = [] ∧ u.pass = s.pass ∧ u.runs = s.runs ∧
        h ∈ s.messages.rows ∧ h.live = true ∧ ∃ e' ∈ u.embeddings.rows, e'.key = e.key ∧
          e'.messageId = some h.id := by
    obtain ⟨hh, hlive, hhint⟩ | ⟨hdead, hselectable, hhkey⟩ := hmay
    · exact ⟨s, .refl, hjobs, rfl, rfl, hh, hlive, e, he, rfl, hhint⟩
    · obtain ⟨u, hrenamed⟩ := rename hselectable hjobs he hmodel hhkey hdead
      exact ⟨u, hrenamed.run, hrenamed.jobs, hrenamed.pass, hrenamed.runs, hselectable.1,
        hselectable.2.1, _, hrenamed.row, rfl, rfl⟩
  -- then the passes
  have hsame := unchanged_of_run hrun
  have huinv := inv_of_run hinv hrun
  obtain ⟨t, hdrained, htpass, htnone⟩ := drain huinv
  have hsame' := unchanged_of_run hdrained.run
  refine ⟨t, hrun.trans hdrained.run, ⟨hdrained.jobs.trans hujobs, htpass, htnone, e', ?_, ?_, ?_⟩,
    fun r hr => ?_⟩
  · exact hdrained.embeddings.symm ▸ he'
  · rw [hkey', hkey, rowKey_eq (hsame.trans hsame')]
  · exact ⟨h, (hsame.trans hsame').messages.symm ▸ hh, hhint, hlive⟩
  · obtain hold | ⟨c, hc, hrkey⟩ | ⟨c, hc, heligible, hembedded, hrkey⟩ := hdrained.runs r hr
    · exact Or.inl (huruns ▸ hold)
    · exact Or.inr (Or.inl ⟨c, hupass ▸ hc, hrkey⟩)
    · refine Or.inr (Or.inr ⟨c, hsame.messages ▸ hc, ?_, hrkey, fun hckey => ?_⟩)
      · rw [← liveEligible_eq hsame]
        exact heligible
      · obtain ⟨e'', he'', -, hhint'', hmodel'', -⟩ := embedded_iff.1 hembedded
        obtain rfl : e'' = e' := u.embeddings.eq_of_key_eq he'' he' (by
          have hmessage := (key_of_hint huinv he'' hc hhint'').symm.trans hckey
          injection hmessage with haccount hmsgKey
          rw [hkey']
          exact Prod.ext haccount (Prod.ext hmsgKey
            ((hmodel''.trans hsame.model).trans hmodel.symm)))
        refine s.messages.eq_of_key_eq (hsame.messages ▸ hc) hh ?_
        exact Option.some.inj (hhint''.symm.trans hhint)

/-! ## Who gets a run -/

theorem messageKey_of_rowKey (hkey : e.key = rowKey P s m) : messageKey e = m.key P := by
  injection hkey with haccount hrest
  injection hrest with hmsgKey _
  exact Prod.ext haccount hmsgKey

theorem selectable_of_eligible (hm : m ∈ s.messages.rows) (h : s.liveEligible m = true) :
    Selectable P s m := by
  unfold liveEligible at h
  simp only [Bool.and_eq_true, Bool.not_eq_true'] at h
  exact ⟨hm, h.1.1.1.1, Or.inl h.1.1.1.2⟩

theorem can_settle (hinv : Inv P s) (hjobs : s.jobs = []) (hm : m ∈ s.messages.rows)
    (heligible : s.liveEligible m = true) (hend : AtEnd P s m) :
    ∃ t, (system P).Run gateStep s t ∧ Settled P t m := by
  obtain ⟨e, he, hkey, -⟩ := hend
  obtain ⟨h, hmay⟩ : ∃ h, MayHold P s e h := by
    by_cases hlive : HintLive s e
    · obtain ⟨h, hh, hhint, hhlive⟩ := hlive
      exact ⟨h, Or.inl ⟨hh, hhlive, hhint⟩⟩
    · exact ⟨m, Or.inr ⟨hlive, selectable_of_eligible hm heligible,
        (messageKey_of_rowKey hkey).symm⟩⟩
  obtain ⟨t, hrun, hsettled, -⟩ := settles hinv hjobs he hkey hmay
  exact ⟨t, hrun, hsettled⟩

theorem covered_of_gets (hinv : Inv P s) (hjobs : s.jobs = []) (hgets : GetsOne P s m) :
    Covered P s m := by
  by_contra hnot
  simp only [Covered, not_or, not_exists, not_and, not_forall] at hnot
  obtain ⟨hnoRun, hnoPass, e, he, hkey, h, hmay, hother⟩ := hnot
  obtain ⟨t, hrun, hsettled, hruns⟩ := settles hinv hjobs he hkey hmay
  have hone := hgets t hrun hsettled t .refl
  obtain ⟨r, hr, hrkey⟩ := exists_of_runsOf_ne (P := P) (s := t) (m := m) (by omega)
  obtain hold | ⟨c, hc, hckey⟩ | ⟨c, -, heligible, hckey, honly⟩ := hruns r hr
  · exact hnoRun r hold hrkey
  · exact hnoPass c hc (hckey.symm.trans hrkey)
  · have hidentity : c.identity P = m.identity P := hckey.symm.trans hrkey
    obtain rfl := honly ((key_of_identity hidentity).trans (messageKey_of_rowKey hkey).symm)
    exact hother heligible hidentity

theorem inOrder_of_inv (hinv : Inv P s) : InOrder P s := ⟨hinv.early, runsOf_le_one P s⟩

/-- **The embedding gate.** No run is inserted before an embedding of its key is done or failed,
and no identity has two. Where no enqueue is half done, a live-eligible message whose embedding is
done or failed gets exactly one if and only if it has it or is about to be given it, or the hint
of its embedding has only live-eligible messages of its identity to name. -/
theorem gate_runs_once (hs : (system P).Reachable TransitionSystem.anyStep s) :
    InOrder P s ∧ (s.jobs = [] → ∀ m ∈ s.messages.rows, s.liveEligible m = true → AtEnd P s m →
      (∃ t, (system P).Run gateStep s t ∧ Settled P t m) ∧
        (GetsOne P s m ↔ Covered P s m)) := by
  have hinv := inv_of_reachable hs
  refine ⟨inOrder_of_inv hinv, fun hjobs m hm heligible hend => ?_⟩
  refine ⟨can_settle hinv hjobs hm heligible hend, covered_of_gets hinv hjobs, ?_⟩
  exact gets_of_covered hinv hjobs hend

theorem covered_of_unshared (hinv : Inv P s) (h : ∀ c ∈ s.messages.rows, c.live = true →
    c.key P = m.key P → s.liveEligible c = true ∧ c.identity P = m.identity P) :
    Covered P s m := by
  refine Or.inr (Or.inr fun e he hkey c hmay => ?_)
  have hmessage := messageKey_of_rowKey hkey
  obtain ⟨hc, hlive, hhint⟩ | ⟨-, hselectable, hckey⟩ := hmay
  · exact h c hc hlive ((key_of_hint hinv he hc hhint).trans hmessage)
  · exact h c hselectable.1 hselectable.2.1 (hckey.trans hmessage)

/-! ## Two runs of the system -/

open Analysis.EmbeddingReadiness (plainPlatform)

def inbox : Folder where
  id := 1
  deletedAt := none
  initialSyncDone := true
  specialUse := none
  specialUseOverride := none
  lastSyncedAt := some 0

def mail (fromAddr : String) : Message where
  id := 0
  accountId := 1
  folderId := 1
  messageId := some "<order-17@shop.example>"
  fromAddr := some fromAddr
  subject := none
  receivedAt := some 10
  sizeBytes := none
  imapUid := some 1
  rawSource := none
  isTruncated := false
  isDraft := false
  attachments := []
  expungedAt := none
  createdAt := 0

/-- The inbox is synced, a message arrives in it and a worker has its row. -/
def arrives : List Label :=
  [.folder inbox, .folderSynced 1, .tick 10, .mirror (mail "orders@shop.example"),
    .selectArrival 0, .advance 0, .advance 0, .claim 1 "w"]

/-- The message goes before its row is done, and is mirrored again. -/
def resynced : List Label :=
  arrives ++ [.expunge 0, .writeResult 1 "w" "text", .mirror (mail "orders@shop.example")]

/-- Its row is done, and a message with its Message-ID arrives from another sender. -/
def forged : List Label :=
  arrives ++ [.writeResult 1 "w" "text", .mirror (mail "forger@attacker.example"),
    .selectArrival 2, .advance 0, .advance 0]

theorem resynced_message_gets_one :
    ∃ s, (system plainPlatform).Reachable TransitionSystem.anyStep s ∧
      ∃ m ∈ s.messages.rows, s.liveEligible m = true ∧ runsOf plainPlatform s m = 0 ∧
        GetsOne plainPlatform s m := by
  have hruns : ((system plainPlatform).exec (start "text" 7) resynced).any (fun s =>
      decide (s.jobs = []) && s.messages.rows.any fun m => s.liveEligible m &&
        decide (runsOf plainPlatform s m = 0) &&
        s.embeddings.rows.any (fun e =>
          decide (e.key = rowKey plainPlatform s m) && terminal e.status) &&
        s.messages.rows.all fun c => !(c.live && decide (c.key plainPlatform =
          m.key plainPlatform)) || (s.liveEligible c &&
            decide (c.identity plainPlatform = m.identity plainPlatform))) = true := by
    decide +kernel
  obtain ⟨s, hexec, h⟩ := (Option.any_eq_true _ _).1 hruns
  simp only [Bool.and_eq_true, decide_eq_true_eq, List.any_eq_true, List.all_eq_true,
    Bool.or_eq_true, Bool.not_eq_true', Bool.and_eq_false_imp] at h
  obtain ⟨hjobs, m, hm, ⟨⟨heligible, hnone⟩, e, he, hkey, hend⟩, hshared⟩ := h
  have hreach : (system plainPlatform).Reachable TransitionSystem.anyStep s :=
    TransitionSystem.reachable_of_exec_any _ ⟨"text", 7, rfl⟩ hexec
  refine ⟨s, hreach, m, hm, heligible, hnone, ?_⟩
  refine (((gate_runs_once hreach).2 hjobs m hm heligible ⟨e, he, hkey, hend⟩).2).2 ?_
  refine covered_of_unshared (inv_of_reachable hreach) fun c hc hlive hckey => ?_
  obtain hother | hsame := hshared c hc
  · have hfalse := hother hlive
    rw [decide_eq_false_iff_not] at hfalse
    exact absurd hckey hfalse
  · exact hsame

/-- The forged message is left without a run. -/
theorem forged_message_gets_none :
    ¬ ∀ s, (system plainPlatform).Reachable TransitionSystem.anyStep s → s.jobs = [] →
      ∀ m ∈ s.messages.rows, s.liveEligible m = true → AtEnd plainPlatform s m →
        GetsOne plainPlatform s m := by
  intro hall
  have hruns : ((system plainPlatform).exec (start "text" 7) forged).any (fun s =>
      decide (s.jobs = []) && decide (s.pass = []) && decide (s.candidates = []) &&
        s.messages.rows.any fun m => s.liveEligible m &&
          decide (runsOf plainPlatform s m = 0) &&
          s.embeddings.rows.any fun e =>
            decide (e.key = rowKey plainPlatform s m) && terminal e.status &&
              s.messages.rows.any fun h => decide (e.messageId = some h.id) && h.live) = true := by
    decide +kernel
  obtain ⟨s, hexec, h⟩ := (Option.any_eq_true _ _).1 hruns
  simp only [Bool.and_eq_true, decide_eq_true_eq, List.any_eq_true] at h
  obtain ⟨⟨⟨hjobs, hpass⟩, hcandidates⟩, m, hm, ⟨heligible, hnone⟩, e, he, ⟨hkey, hend⟩, hlive⟩ := h
  have hreach : (system plainPlatform).Reachable TransitionSystem.anyStep s :=
    TransitionSystem.reachable_of_exec_any _ ⟨"text", 7, rfl⟩ hexec
  have hsettled : Settled plainPlatform s m := ⟨hjobs, hpass, hcandidates, e, he, hkey, hlive⟩
  have hone := hall s hreach hjobs m hm heligible ⟨e, he, hkey, hend⟩ s .refl hsettled s .refl
  rw [hnone] at hone
  cases hone

end MailVerdict.Analysis.SettledGate
