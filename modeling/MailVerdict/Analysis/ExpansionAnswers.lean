import MailVerdict.Model.ExpansionCache
import MailVerdict.Analysis.OccurrenceEdits

/-!
# What the expansion cache answers

Both caches keep what was computed of the body read under an etag. As long as every call
is made for the body the server gave that etag out for, a key stands for one body and every
answer is that of the body the call was given, whatever is evicted in between. An edit that
the server has not confirmed changes the body and keeps the etag: a call made then is
answered from the body before it.
-/

namespace MailVerdict.Analysis.ExpansionAnswers

open MailVerdict.Computation Model.ExpansionCache

universe u

variable {I : Type u} {Body Query Window Result Error : Type}

section

variable (E : Expander Body Query Window Result Error)

/-- Every call that has returned gave what `expand_instances` gives for its data. -/
def Answers (s : State I Body Query Window Result Error) : Prop :=
  ∀ i c answer, s.phase i = .answered c answer → answer = E.expandInstances c.data c.window

/-- A call is made for the body its row's etag was given out for: no edit of the row is
pending when it is read. -/
def NoEditPending (s : State I Body Query Window Result Error) : Label I Body Window → Prop
  | .read _ id _ => ∀ row etag, s.rows id = some row → row.etag = some etag →
      s.server (id, etag) = some row.data
  | _ => True

/-! ### The invariant -/

/-- What a call under way knows of the body its etag was given out for. -/
def PhaseOk (server : ObjectId × Etag → Option Body) :
    Phase Body Query Window Result Error → Prop
  | .idle => True
  | .called c => ∀ etag, c.etag = some etag → server (c.objectId, etag) = some c.data
  | .missed c etag => server (c.objectId, etag) = some c.data
  | .built c etag query => server (c.objectId, etag) = some c.data ∧ E.build c.data = .ok query
  | .querying c etag query =>
    server (c.objectId, etag) = some c.data ∧ E.build c.data = .ok query
  | .expanded c etag result =>
    server (c.objectId, etag) = some c.data ∧ E.expandInstances c.data c.window = .ok result
  | .answered c answer => answer = E.expandInstances c.data c.window

structure Inv (s : State I Body Query Window Result Error) : Prop where
  queries : ∀ k query, (k, query) ∈ s.queries.entries →
    ∃ body, s.server k = some body ∧ E.build body = .ok query
  expansions : ∀ id etag window result, ((id, etag, window), result) ∈ s.expansions.entries →
    ∃ body, s.server (id, etag) = some body ∧ E.expandInstances body window = .ok result
  phases : ∀ i, PhaseOk E s.server (s.phase i)

end

variable {E : Expander Body Query Window Result Error} {s t : State I Body Query Window Result Error}
  {p : Phase Body Query Window Result Error}

theorem PhaseOk.mono {server server' : ObjectId × Etag → Option Body}
    (h : PhaseOk E server p) (hmono : ∀ k body, server k = some body → server' k = some body) :
    PhaseOk E server' p := by
  cases p with
  | idle => trivial
  | called c => exact fun etag hetag => hmono _ _ (h etag hetag)
  | missed c etag => exact hmono _ _ h
  | built c etag query | querying c etag query
  | expanded c etag result => exact ⟨hmono _ _ h.1, h.2⟩
  | answered c answer => exact h

theorem Inv.learned (h : Inv E s) (hqueries : t.queries = s.queries)
    (hexpansions : t.expansions = s.expansions) (hphase : t.phase = s.phase)
    (hmono : ∀ k body, s.server k = some body → t.server k = some body) : Inv E t := by
  refine ⟨?_, ?_, ?_⟩
  · rw [hqueries]
    intro k query hmem
    obtain ⟨body, hbody, hbuild⟩ := h.queries k query hmem
    exact ⟨body, hmono _ _ hbody, hbuild⟩
  · rw [hexpansions]
    intro id etag window result hmem
    obtain ⟨body, hbody, hresult⟩ := h.expansions id etag window result hmem
    exact ⟨body, hmono _ _ hbody, hresult⟩
  · rw [hphase]
    exact fun i => (h.phases i).mono hmono

variable [DecidableEq I] {i : I}

theorem Inv.to (h : Inv E s) (hp : PhaseOk E s.server p) : Inv E (s.to i p) := by
  refine ⟨h.queries, h.expansions, fun j => ?_⟩
  show PhaseOk E s.server (Function.update s.phase i p j)
  by_cases hj : j = i
  · rw [hj, Function.update_self]
    exact hp
  · rw [Function.update_of_ne hj]
    exact h.phases j

omit [DecidableEq I] in
theorem Inv.withQueries (h : Inv E s) {queries : LruCache (ObjectId × Etag) Query}
    (hqueries : ∀ k query, (k, query) ∈ queries.entries →
      ∃ body, s.server k = some body ∧ E.build body = .ok query) :
    Inv E { s with queries := queries } := ⟨hqueries, h.expansions, h.phases⟩

omit [DecidableEq I] in
theorem Inv.withExpansions (h : Inv E s) {expansions : LruCache (ObjectId × Etag × Window) Result}
    (hexpansions : ∀ id etag window result, ((id, etag, window), result) ∈ expansions.entries →
      ∃ body, s.server (id, etag) = some body ∧ E.expandInstances body window = .ok result) :
    Inv E { s with expansions := expansions } := ⟨h.queries, hexpansions, h.phases⟩

/-! ### The steps of a call -/

theorem lookupQuery_inv (h : Inv E s) {c : Call Body Window} {etag : Etag}
    (hphase : s.phase i = .missed c etag) : Inv E (s.lookupQuery E i c etag) := by
  have hserver : s.server (c.objectId, etag) = some c.data := by
    have hok := h.phases i
    rw [hphase] at hok
    exact hok
  have htouched : Inv E { s with queries := s.queries.touched (c.objectId, etag) } :=
    h.withQueries fun k q hmem => h.queries k q (LruCache.mem_touched hmem)
  unfold State.lookupQuery
  simp only
  cases hfind : s.queries.find? (c.objectId, etag) with
  | some query =>
    obtain ⟨body, hbody, hbuild⟩ := h.queries _ _ (LruCache.mem_of_find? hfind)
    rw [hserver, Option.some.injEq] at hbody
    rw [← hbody] at hbuild
    exact htouched.to ⟨hserver, hbuild⟩
  | none =>
    cases hbuild : E.build c.data with
    | ok query => exact htouched.to ⟨hserver, hbuild⟩
    | error e =>
      refine htouched.to ?_
      show _ = E.expandInstances c.data c.window
      unfold Expander.expandInstances
      rw [hbuild]
      rfl

theorem expandQuery_inv (h : Inv E s) {c : Call Body Window} {etag : Etag} {query : Query}
    (hphase : s.phase i = .querying c etag query) : Inv E (s.expandQuery E i c etag query) := by
  have hok := h.phases i
  rw [hphase] at hok
  obtain ⟨hserver, hbuild⟩ := hok
  have hexpand : E.expandInstances c.data c.window = E.expandFrom query c.window := by
    unfold Expander.expandInstances
    rw [hbuild]
    rfl
  unfold State.expandQuery
  cases hresult : E.expandFrom query c.window with
  | ok result => exact h.to ⟨hserver, hexpand.trans hresult⟩
  | error e => exact h.to (hexpand.trans hresult).symm

variable [DecidableEq Window]

theorem lookupExpansion_inv (h : Inv E s) {c : Call Body Window} (hphase : s.phase i = .called c) :
    Inv E (s.lookupExpansion E i c) := by
  have hok := h.phases i
  rw [hphase] at hok
  unfold State.lookupExpansion
  cases hetag : c.etag with
  | none => exact h.to rfl
  | some etag =>
    have hserver : s.server (c.objectId, etag) = some c.data := hok etag hetag
    have htouched : Inv E
        { s with expansions := s.expansions.touched (c.objectId, etag, c.window) } :=
      h.withExpansions fun id e w r hmem => h.expansions id e w r (LruCache.mem_touched hmem)
    simp only
    cases hfind : s.expansions.find? (c.objectId, etag, c.window) with
    | none => exact htouched.to hserver
    | some result =>
      refine htouched.to ?_
      obtain ⟨body, hbody, hresult⟩ :=
        h.expansions _ _ _ _ (LruCache.mem_of_find? hfind)
      rw [hserver, Option.some.injEq] at hbody
      rw [← hbody] at hresult
      exact hresult.symm

variable [DecidableEq Body]

omit [DecidableEq I] [DecidableEq Window] in
theorem learn_mono {id : ObjectId} {etag : Etag} {data : Body} (h : s.givesOut id etag data = true)
    (k : ObjectId × Etag) (body : Body) (hbody : s.server k = some body) :
    (s.learn id etag data).server k = some body := by
  show Function.update s.server (id, etag) (some data) k = some body
  by_cases hk : k = (id, etag)
  · rw [hk, Function.update_self]
    rw [hk] at hbody
    unfold State.givesOut at h
    rw [hbody] at h
    rw [of_decide_eq_true h]
  · rw [Function.update_of_ne hk]
    exact hbody

/-- Where no edit is pending, a step keeps every cached answer that of the server's body. -/
theorem step_inv {l : Label I Body Window} (h : Inv E s) (hread : NoEditPending s l)
    (hstep : step E s l = some t) : Inv E t := by
  unfold step at hstep
  cases l with
  | read j id window =>
    have hcalled : ∀ row, s.rows id = some row →
        Inv E (s.to j (.called ⟨id, row.etag, row.data, window⟩)) :=
      fun row hrow => h.to fun etag hetag => hread row etag hrow hetag
    simp only at hstep
    split at hstep
    · rename_i row _ hrow
      cases hstep
      exact hcalled row hrow
    · rename_i row _ hrow
      cases hstep
      exact hcalled row hrow
    · cases hstep
  | lookup j =>
    simp only at hstep
    split at hstep
    · rename_i c hphase
      cases hstep
      exact lookupExpansion_inv h hphase
    · cases hstep
  | lookupQuery j =>
    simp only at hstep
    split at hstep
    · rename_i c etag hphase
      cases hstep
      exact lookupQuery_inv h hphase
    · cases hstep
  | putQuery j =>
    simp only at hstep
    split at hstep
    · rename_i c etag query hphase
      cases hstep
      have hok := h.phases j
      rw [hphase] at hok
      refine (h.withQueries fun k q hmem => ?_).to hok
      rcases LruCache.mem_put hmem with hmem | heq
      · exact h.queries k q hmem
      · cases heq
        exact ⟨c.data, hok.1, hok.2⟩
    · cases hstep
  | expand j =>
    simp only at hstep
    split at hstep
    · rename_i c etag query hphase
      cases hstep
      exact expandQuery_inv h hphase
    · cases hstep
  | putExpansion j =>
    simp only at hstep
    split at hstep
    · rename_i c etag result hphase
      cases hstep
      have hok := h.phases j
      rw [hphase] at hok
      refine (h.withExpansions fun id e w r hmem => ?_).to hok.2.symm
      rcases LruCache.mem_put hmem with hmem | heq
      · exact h.expansions id e w r hmem
      · cases heq
        exact ⟨c.data, hok.1, hok.2⟩
    · cases hstep
  | create id data =>
    simp only at hstep
    split at hstep
    · cases hstep
      exact h.learned rfl rfl rfl fun _ _ hbody => hbody
    · cases hstep
  | replaceData id data | move id =>
    obtain ⟨row, -, rfl⟩ := Option.map_eq_some_iff.1 hstep
    exact h.learned rfl rfl rfl fun _ _ hbody => hbody
  | confirm id etag data =>
    simp only at hstep
    split at hstep
    · rename_i hgives
      obtain ⟨row, -, rfl⟩ := Option.map_eq_some_iff.1 hstep
      exact h.learned rfl rfl rfl (learn_mono hgives)
    · cases hstep
  | restore id etag data =>
    simp only at hstep
    split at hstep
    · rename_i hgives
      cases hstep
      exact h.learned rfl rfl rfl (learn_mono hgives)
    · cases hstep

/-- **The cache answers what the expansion would, while no edit is pending at a call**: every
call returns, or raises, what `expand_instances` does for the data it was given, as long as each
call with an etag is made for the body the server gave that etag out for. -/
theorem cache_answers_while_no_edit_pending {maxQueries maxExpansions : ℕ}
    (h : (system E maxQueries maxExpansions).Reachable NoEditPending s) : Answers E s := by
  have hinv : Inv E s := by
    refine h.invariant ?_ fun s l t hs hread hstep => step_inv hs hread hstep
    rintro s rfl
    exact ⟨fun k q hmem => (by cases hmem), fun id e w r hmem => (by cases hmem), fun j => trivial⟩
  intro j c answer hphase
  have hok := hinv.phases j
  rw [hphase] at hok
  exact hok

/-! ### The stand-ups, asked for twice -/

section

open Model.Ical Analysis.IcalBodies Analysis.OccurrenceEdits

def shownIn : Expander Calendar Calendar (List RecurrenceId) (List ParsedEvent) EditError where
  build cal := .ok cal
  expandFrom cal window := .ok (window.filterMap (cal.shownAt utcPlatform))

def renamedStandups : Calendar :=
  { method := none, vevents := [{ standup with summary := some "Planning" }] }

def firstDay : List RecurrenceId := [.instant 32400]

/-- The stand-ups are created and confirmed, and one thread asks for the first day. -/
def askedOnce : List (Label ℕ Calendar (List RecurrenceId)) :=
  [.create 1 standups, .confirm 1 "a" standups, .read 0 1 firstDay, .lookup 0, .lookupQuery 0,
    .putQuery 0, .expand 0, .putExpansion 0]

def askedTwice : List (Label ℕ Calendar (List RecurrenceId)) :=
  askedOnce ++ [.read 1 1 firstDay, .lookup 1]

def askedAfterEdit : List (Label ℕ Calendar (List RecurrenceId)) :=
  askedOnce ++ [.replaceData 1 renamedStandups, .read 1 1 firstDay, .lookup 1]

def noRows : State ℕ Calendar Calendar (List RecurrenceId) (List ParsedEvent) EditError :=
  start 4096 16384

theorem asked_again_answers :
    ∃ s, (system shownIn 4096 16384).exec noRows askedTwice = some s ∧
      s.phase 1 = .answered ⟨1, some "a", standups, firstDay⟩ (.ok [standupAt 32400]) ∧
      Answers shownIn s := by
  have hread : ∀ (s : State ℕ Calendar Calendar (List RecurrenceId) (List ParsedEvent) EditError)
      (i : ℕ), s.rows 1 = some ⟨some "a", standups⟩ → s.server (1, "a") = some standups →
        NoEditPending s (.read i 1 firstDay) := by
    intro s i hrow hserver row etag hrow' hetag
    rw [hrow, Option.some.injEq] at hrow'
    subst hrow'
    cases hetag
    exact hserver
  have h0 : (system shownIn 4096 16384).Reachable NoEditPending noRows := .init rfl
  have h1 := h0.step (l := Label.create 1 standups) trivial rfl
  have h2 := h1.step (l := Label.confirm 1 "a" standups) trivial rfl
  have h3 := h2.step (l := Label.read 0 1 firstDay) (hread _ 0 rfl rfl) rfl
  have h4 := h3.step (l := Label.lookup 0) trivial rfl
  have h5 := h4.step (l := Label.lookupQuery 0) trivial rfl
  have h6 := h5.step (l := Label.putQuery 0) trivial rfl
  have h7 := h6.step (l := Label.expand 0) trivial rfl
  have h8 := h7.step (l := Label.putExpansion 0) trivial rfl
  have h9 := h8.step (l := Label.read 1 1 firstDay) (hread _ 1 rfl rfl) rfl
  have h10 := h9.step (l := Label.lookup 1) trivial rfl
  exact ⟨_, rfl, rfl, cache_answers_while_no_edit_pending h10⟩

/-- Asked again after an edit, before the server has confirmed it, the cache answers with
the body before the edit. -/
theorem edited_answers_before_edit :
    ∃ s, (system shownIn 4096 16384).exec noRows askedAfterEdit = some s ∧
      (system shownIn 4096 16384).Reachable TransitionSystem.anyStep s ∧
      s.phase 1 = .answered ⟨1, some "a", renamedStandups, firstDay⟩ (.ok [standupAt 32400]) ∧
      ¬ Answers shownIn s := by
  refine ⟨_, rfl, TransitionSystem.reachable_of_exec_any askedAfterEdit rfl rfl, rfl, fun h => ?_⟩
  have hanswer := h 1 ⟨1, some "a", renamedStandups, firstDay⟩ (.ok [standupAt 32400]) rfl
  have hshown : [standupAt 32400] = firstDay.filterMap (renamedStandups.shownAt utcPlatform) :=
    Except.ok.inj hanswer
  exact absurd (congrArg (List.map ParsedEvent.summary) hshown) (by decide)

end

end MailVerdict.Analysis.ExpansionAnswers
