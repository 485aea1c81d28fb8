import MailVerdict.Model.GlacierWriters

/-!
# Restores, deletes and the row they were decided on

Every writer of a glacier row decides on the row it has read and writes by the row's id. Two
things come of it when the row has moved in between: a second append for a restore that is under
way, and a finished restore or a permanent delete that is overwritten. `oneAppend_write` and
`final_write` say exactly when one write does this, and the two theorems carry it over runs.
-/

namespace MailVerdict.Analysis.RestoreRaces

open MailVerdict.Computation Model.GlacierWriters
open Model.Glacier (Platform Uuid)

variable {s t : State} {r : Row} {l : Label}

variable {P : Platform}

/-! ## One append for a restore -/

/-- A restore under way has one append, the one it waits for; and no finished restore is back
among the glaciered. -/
def OneAppend (s : State) : Prop :=
  ∀ r ∈ s.row,
    (r.state = .restoring → ∃ a, (s.appends.filter fun a => decide (a.episode = s.episode)) = [a] ∧
      r.restoreOutboxId = some a.id) ∧
    ¬ (r.state = .glaciered ∧ r.restoredAt.isSome = true ∧ r.rawSource = none)

/-- What a write must still find: no restore under way, where it starts one; no finished one,
where it puts the row back. -/
def Unmoved (r : Row) : Held → Prop
  | .starting _ _ _ => r.state ≠ .restoring
  | .failing _ | .confirmingRemoval | .finalising _ =>
    ¬ (r.restoredAt.isSome = true ∧ r.rawSource = none)
  | _ => True

def StillAsRead (s : State) : Label → Prop
  | .write k => ∀ h ∈ s.held k, ∀ r ∈ s.row, Unmoved r h
  | _ => True

instance (r : Row) (h : Held) : Decidable (Unmoved r h) := by
  cases h <;> unfold Unmoved <;> infer_instance

instance (s : State) (l : Label) : Decidable (StillAsRead s l) := by
  cases l <;> unfold StillAsRead <;> infer_instance

def Numbered (s : State) : Prop := ∀ a ∈ s.appends, a.episode ≤ s.episode

theorem nextEpisode_of_restoring (hrow : s.row = some r)
    (h : r.state = .restoring) : s.nextEpisode = s.episode := by
  rw [State.nextEpisode, hrow, Option.any_some, decide_eq_true h, if_pos rfl]

theorem nextEpisode_of_other (hrow : s.row = some r)
    (h : r.state ≠ .restoring) : s.nextEpisode = s.episode + 1 := by
  rw [State.nextEpisode, hrow, Option.any_some, decide_eq_false h, if_neg Bool.false_ne_true]

theorem le_nextEpisode (s : State) : s.episode ≤ s.nextEpisode := by
  rw [State.nextEpisode]
  split
  · exact Nat.le_refl _
  · exact Nat.le_succ _

theorem filter_nextEpisode (h : Numbered s) {n : ℕ} (hn : s.episode < n)
    (a : Append) (ha : a.episode = n) :
    ((s.appends ++ [a]).filter fun x => decide (x.episode = n)) = [a] := by
  rw [List.filter_append, List.filter_eq_nil_iff.2, List.nil_append, List.filter_cons_of_pos,
    List.filter_nil]
  · exact decide_eq_true ha
  · intro x hx hsame
    have hle := h x hx
    have heq := of_decide_eq_true hsame
    omega

theorem numbered_write (h : Numbered s) (x : Held) : Numbered (write s x) := by
  cases x with
  | starting raw folder date =>
    intro a ha
    obtain hold | hnew := List.mem_append.1 ha
    · exact Nat.le_trans (h a hold) (le_nextEpisode s)
    · rw [List.mem_singleton.1 hnew]
      exact Nat.le_refl s.nextEpisode
  | withdrawing origin =>
    cases origin with
    | none => exact h
    | some id => exact h
  | _ => exact h

theorem glaciered_iff {r' : Row} (hrow : t.row = some r')
    (hback : r'.state = .glaciered ∧ r'.restoredAt = r.restoredAt ∧ r'.rawSource = r.rawSource) :
    OneAppend t ↔ ¬ (r.restoredAt.isSome = true ∧ r.rawSource = none) := by
  obtain ⟨hstate, hrestored, hraw⟩ := hback
  constructor
  · intro ht hfinished
    rw [← hrestored, ← hraw] at hfinished
    exact (ht r' hrow).2 ⟨hstate, hfinished⟩
  · intro hnot x hx
    rw [hrow] at hx
    cases hx
    refine ⟨fun hrestoring => ?_, fun hbad => ?_⟩
    · rw [hstate] at hrestoring
      cases hrestoring
    · rw [hrestored, hraw] at hbad
      exact hnot hbad.2

/-- A write leaves a restore its one append exactly when it finds the row unmoved. -/
theorem oneAppend_write (hnumbered : Numbered s) (hs : OneAppend s) (h : Held) :
    OneAppend (write s h) ↔ ∀ r ∈ s.row, Unmoved r h := by
  cases hrow : s.row with
  | none =>
    have hgone : (write s h).row = none := by
      cases h with
      | withdrawing origin => cases origin <;> rfl
      | judging | resolving => exact hrow
      | _ => simp only [write, writeRestoring, pointToLive, hrow, Option.map_none]
    refine iff_of_true ?_ (fun r hr => by cases hr)
    intro r hr
    rw [hgone] at hr
    cases hr
  | some r =>
    have hsr := hs r hrow
    have hcond : (∀ x ∈ some r, Unmoved x h) ↔ Unmoved r h :=
      ⟨fun hall => hall r rfl, fun hone x hx => by cases hx; exact hone⟩
    rw [hcond]
    cases h with
    | starting raw folder date =>
      have hmoved : (write s (.starting raw folder date)).row =
          some (r.restoring s.nextId s.now) := by
        simp only [write, writeRestoring, hrow, Option.map_some]
      constructor
      · intro ht hrestoring
        -- the append of the restore under way is still there
        obtain ⟨a, hone, -⟩ := (hsr.1) hrestoring
        obtain ⟨b, htwo, -⟩ := (ht _ hmoved).1 rfl
        have hsame : s.nextEpisode = s.episode := nextEpisode_of_restoring hrow hrestoring
        have hlength := congrArg List.length htwo
        simp only [write, writeRestoring, hsame, List.filter_append, hone] at hlength
        simp at hlength
      · intro hnot
        have hnext := nextEpisode_of_other hrow hnot
        intro x hx
        rw [hmoved] at hx
        cases hx
        refine ⟨fun _ => ⟨_, filter_nextEpisode hnumbered ?_ _ rfl, rfl⟩, ?_⟩
        · show s.episode < s.nextEpisode
          rw [hnext]
          exact Nat.lt_succ_self _
        · rintro ⟨hstate, -⟩
          cases hstate
    | confirming liveId =>
      refine iff_of_true ?_ trivial
      intro x hx
      simp only [write, pointToLive, hrow, Option.map_some, Option.mem_some_iff] at hx
      subst hx
      exact ⟨RowState.noConfusion, fun hbad => RowState.noConfusion hbad.1⟩
    | failing reason =>
      have hmoved : (write s (.failing reason)).row = some (r.failed reason) := by
        simp only [write, hrow, Option.map_some]
      exact glaciered_iff hmoved ⟨rfl, rfl, rfl⟩
    | confirmingRemoval =>
      have hmoved : (write s .confirmingRemoval).row = some (r.glaciered s.now) := by
        simp only [write, hrow, Option.map_some]
      exact glaciered_iff hmoved ⟨rfl, rfl, rfl⟩
    | finalising oldOrigin =>
      have hmoved : (write s (.finalising oldOrigin)).row = some (r.finalised s.now) := by
        simp only [write, hrow, Option.map_some]
      exact glaciered_iff hmoved ⟨rfl, rfl, rfl⟩
    | withdrawing origin =>
      refine iff_of_true ?_ trivial
      intro x hx
      cases origin with
      | none => cases hx
      | some id => cases hx
    | repointing found =>
      refine iff_of_true ?_ trivial
      intro x hx
      simp only [write, hrow, Option.map_some, Option.mem_some_iff] at hx
      subst hx
      exact hsr
    | deleting =>
      refine iff_of_true ?_ trivial
      intro x hx
      simp only [write, hrow, Option.map_some, Option.mem_some_iff] at hx
      subst hx
      exact ⟨RowState.noConfusion, fun hbad => RowState.noConfusion hbad.1⟩
    | judging | resolving => exact iff_of_true hs trivial

/-! ## The other statements -/

/-- What every statement but a write leaves: the appends up to their status, and the row, unless
it is a verified one whose expunge is requested. -/
structure Kept (s t : State) : Prop where
  deleted : t.deleted = s.deleted
  deletedOrigin : t.deletedOrigin = s.deletedOrigin
  repointed : t.repointed = s.repointed
  episode : t.episode = s.episode
  appends : ∃ f : Append → Append, (∀ a, (f a).id = a.id ∧ (f a).episode = a.episode) ∧
    t.appends = s.appends.map f
  row : t.row = s.row ∨ ∃ r, s.row = some r ∧ r.state = .verified ∧ t.row = some (r.removing s.now)

theorem kept_of_same (hdeleted : t.deleted = s.deleted)
    (horigin : t.deletedOrigin = s.deletedOrigin) (hrepointed : t.repointed = s.repointed) (hepisode : t.episode = s.episode)
    (happends : t.appends = s.appends) (hrow : t.row = s.row) : Kept s t where
  deleted := hdeleted
  deletedOrigin := horigin
  repointed := hrepointed
  episode := hepisode
  appends := ⟨id, fun _ => ⟨rfl, rfl⟩, by rw [happends, List.map_id]⟩
  row := Or.inl hrow

theorem kept_hold (s : State) (k : SessionId) (h : Option Held) : Kept s (s.hold k h) :=
  kept_of_same rfl rfl rfl rfl rfl rfl

/-- Only a held write does more to the row and the appends. -/
theorem step_kept (hl : ∀ k, l ≠ .write k) (hstep : step P s l = some t) : Kept s t := by
  cases l with
  | tick elapsed | postimap messages notifications =>
    cases hstep
    exact kept_of_same rfl rfl rfl rfl rfl rfl
  | rollback k =>
    cases hstep
    exact kept_hold s k none
  | progress outboxId status =>
    cases hstep
    refine ⟨rfl, rfl, rfl, rfl, ⟨_, fun a => ?_, rfl⟩, Or.inl rfl⟩
    split
    · exact ⟨rfl, rfl⟩
    · exact ⟨rfl, rfl⟩
  | expungeMessage =>
    simp only [step] at hstep
    split at hstep
    · rename_i r hrow
      split at hstep
      · rename_i hstate horigin
        obtain ⟨-, hstep⟩ := Option.ite_none_right_eq_some.1 hstep
        cases hstep
        exact ⟨rfl, rfl, rfl, rfl, ⟨id, fun _ => ⟨rfl, rfl⟩, (List.map_id _).symm⟩,
          Or.inr ⟨r, hrow, hstate, rfl⟩⟩
      · cases hstep
    · cases hstep
  | readGlaciered k folder =>
    simp only [step] at hstep
    split at hstep
    · split at hstep
      · cases hstep
        exact kept_hold _ _ _
      · cases hstep
    · cases hstep
  | readLanded k liveId | readStale k timeout | readRemoving k grace | readVerified k
  | readVisible k =>
    simp only [step] at hstep
    split at hstep
    · obtain ⟨-, hstep⟩ := Option.ite_none_right_eq_some.1 hstep
      cases hstep
      exact kept_hold _ _ _
    · cases hstep
  | judge k =>
    simp only [step] at hstep
    split at hstep
    · split at hstep
      · cases hstep
        exact kept_hold _ _ _
      · split at hstep
        · cases hstep
          exact kept_hold _ _ _
        · cases hstep
          exact kept_hold _ _ _
    · cases hstep
  | lookUp k found =>
    simp only [step] at hstep
    split at hstep
    · cases found with
      | some mid =>
        obtain ⟨-, hstep⟩ := Option.ite_none_right_eq_some.1 hstep
        cases hstep
        exact kept_hold _ _ _
      | none =>
        obtain ⟨-, hstep⟩ := Option.ite_none_left_eq_some.1 hstep
        cases hstep
        exact kept_hold _ _ _
    · cases hstep
  | write k => exact absurd rfl (hl k)

theorem step_write {k : SessionId} (hstep : step P s (.write k) = some t) :
    ∃ h, s.held k = some h ∧ t = (write s h).hold k none := by
  obtain ⟨h, hheld, rfl⟩ := Option.map_eq_some_iff.1 hstep
  exact ⟨h, hheld, rfl⟩

theorem numbered_step (h : Numbered s) (hstep : step P s l = some t) :
    Numbered t := by
  by_cases hl : ∃ k, l = .write k
  · obtain ⟨k, rfl⟩ := hl
    obtain ⟨x, -, rfl⟩ := step_write hstep
    exact numbered_write h x
  · have hkept := step_kept (fun k hk => hl ⟨k, hk⟩) hstep
    obtain ⟨f, hf, happends⟩ := hkept.appends
    intro a ha
    rw [happends] at ha
    obtain ⟨b, hb, rfl⟩ := List.mem_map.1 ha
    rw [(hf b).2, hkept.episode]
    exact h b hb

theorem oneAppend_kept (hs : OneAppend s) (h : Kept s t) : OneAppend t := by
  intro r hr
  obtain hsame | ⟨r', -, -, hmoved⟩ := h.row
  · rw [hsame] at hr
    refine ⟨fun hrestoring => ?_, (hs r hr).2⟩
    obtain ⟨a, hone, hid⟩ := (hs r hr).1 hrestoring
    obtain ⟨f, hf, happends⟩ := h.appends
    refine ⟨f a, ?_, by rw [(hf a).1]; exact hid⟩
    have hpred : ((fun x : Append => decide (x.episode = s.episode)) ∘ f) =
        fun x => decide (x.episode = s.episode) := by
      funext x
      rw [Function.comp_apply, (hf x).2]
    rw [happends, h.episode, List.filter_map, hpred, hone, List.map_cons, List.map_nil]
  · rw [hmoved] at hr
    cases hr
    exact ⟨RowState.noConfusion, fun hbad => RowState.noConfusion hbad.1⟩

theorem oneAppend_step_iff (hnumbered : Numbered s) (hs : OneAppend s)
    (hstep : step P s l = some t) : OneAppend t ↔ StillAsRead s l := by
  by_cases hl : ∃ k, l = .write k
  · obtain ⟨k, rfl⟩ := hl
    obtain ⟨h, hheld, rfl⟩ := step_write hstep
    have hcond : StillAsRead s (.write k) ↔ ∀ r ∈ s.row, Unmoved r h := by
      rw [StillAsRead, hheld]
      exact ⟨fun hall => hall h rfl, fun hone x hx => by cases hx; exact hone⟩
    rw [hcond]
    exact oneAppend_write hnumbered hs h
  · have hkept := step_kept (fun k hk => hl ⟨k, hk⟩) hstep
    refine iff_of_true (oneAppend_kept hs hkept) ?_
    cases l with
    | write k => exact absurd ⟨k, rfl⟩ hl
    | _ => trivial

/-- **A restore appends once**, and no finished one is back among the glaciered, in a run, exactly
when no `start_restore` writes on a row being restored and no sweep on a finished restore. -/
theorem one_append_per_restore (P : Platform) (ls : List Label) {s t : State} (hs : Fresh s)
    (h : (system P).exec s ls = some t) :
    (∀ u ∈ (system P).trail s ls, OneAppend u) ↔ (system P).execMeets StillAsRead s ls = true := by
  refine TransitionSystem.trail_iff_execMeets (fun _ _ _ => numbered_step)
    (fun _ _ _ => oneAppend_step_iff) ls ?_ ?_ h
  · intro a ha
    rw [hs.appends] at ha
    cases ha
  · intro r hr
    obtain ⟨hrestoring, -, hfinished⟩ := hs.row r hr
    refine ⟨fun h => absurd h hrestoring, ?_⟩
    rintro ⟨hstate, hrestored, -⟩
    rw [hfinished hrestored] at hstate
    cases hstate

def bytesPlatform : Platform where
  Digest := List UInt8
  decEq := inferInstance
  sha256 := id
  hexdigest := id
  isoformat := toString

def glacieredRow : Row where
  accountId := 1
  messageId := some "<a@b>"
  sizeBytes := some 2
  receivedAt := some 5
  rawSource := some [72, 105]
  originMessageId := some 40
  state := .glaciered
  visibleAt := some 6
  expungeRequestedAt := some 6
  glacieredAt := some 7
  restoredAt := none
  restoreOutboxId := none
  restoreStartedAt := none
  lastError := none

def untouched (r : Row) : State where
  now := 10
  nextId := 100
  row := some r
  tags := .glacier
  appends := []
  messages := []
  notifications := []
  held _ := none
  episode := 0
  deleted := false
  deletedOrigin := none
  repointed := false

theorem fresh_glaciered : Fresh (untouched glacieredRow) where
  row r hr := by
    cases hr
    exact ⟨RowState.noConfusion, RowState.noConfusion, fun h => by cases h⟩
  appends := rfl
  held _ := rfl
  deleted := rfl
  repointed := rfl

/-- The server's copy of the row, as the mirror has it after the append. -/
def landed : Model.Glacier.Message where
  id := 200
  accountId := 1
  folderId := 9
  messageId := some "<a@b>"
  fromAddr := none
  subject := none
  receivedAt := some 5
  sizeBytes := some 2
  imapUid := some 3
  rawSource := some [72, 105]
  isTruncated := false
  isDraft := false
  attachments := []
  expungedAt := none

/-- A restore from its request to its confirmation, while a sweep holds it for stale. -/
def restoredRun : List Label :=
  [.readGlaciered 1 9, .write 1, .progress 100 .sent, .postimap [landed] [], .readLanded 2 200,
    .tick 5, .readStale 3 3, .write 2, .rollback 3]

theorem one_append_per_restore_confirmed :
    ((system bytesPlatform).exec (untouched glacieredRow) restoredRun).isSome = true ∧
      ∀ u ∈ (system bytesPlatform).trail (untouched glacieredRow) restoredRun, OneAppend u := by
  have hruns :
      ((system bytesPlatform).exec (untouched glacieredRow) restoredRun).isSome = true := by
    decide +kernel
  obtain ⟨t, ht⟩ := Option.isSome_iff_exists.1 hruns
  refine ⟨hruns, ?_⟩
  exact (one_append_per_restore bytesPlatform restoredRun fresh_glaciered ht).2 (by decide +kernel)

/-- Two requests that both read the row before either has written. -/
def doubleRun : List Label :=
  [.readGlaciered 1 9, .readGlaciered 2 9, .write 1, .write 2]

theorem second_append_inserted :
    ¬ ∀ P s, (system P).Reachable TransitionSystem.anyStep s → OneAppend s := by
  intro h
  have hruns : ((system bytesPlatform).exec (untouched glacieredRow) doubleRun).any (fun s =>
      s.row.any (fun r => decide (r.state = .restoring)) &&
        decide ((s.appends.filter fun a => decide (a.episode = s.episode)).length = 2)) = true := by
    decide +kernel
  obtain ⟨s, hexec, hfacts⟩ := (Option.any_eq_true _ _).1 hruns
  rw [Bool.and_eq_true, decide_eq_true_eq] at hfacts
  obtain ⟨hrow, htwo⟩ := hfacts
  obtain ⟨r, hr, hrestoring⟩ := (Option.any_eq_true _ _).1 hrow
  have hreach : (system bytesPlatform).Reachable TransitionSystem.anyStep s :=
    TransitionSystem.reachable_of_exec_any doubleRun fresh_glaciered hexec
  obtain ⟨a, hone, -⟩ := (h bytesPlatform s hreach r hr).1 (of_decide_eq_true hrestoring)
  rw [hone] at htwo
  cases htwo

/-! ## A permanent delete -/

/-- A deleted row is the tombstone the delete left, its tags were not given to a live one, and a
read by the live id it was deleted under still finds it destroyed. -/
def Final (s : State) : Prop :=
  s.deleted = true →
    (∃ r, s.row = some r ∧ r.state = .expunged ∧ r.visibleAt = none) ∧
      (∀ id ∈ s.deletedOrigin, wasPermanentlyExpunged s.row (.live id) = true) ∧
      s.repointed = false

/-- Another delete, or a new origin where the tombstone was deleted under none or under that one;
a held read writes nothing. -/
def SparesTombstone (s : State) : Held → Prop
  | .repointing found => ∀ id ∈ s.deletedOrigin, id = found
  | .deleting | .judging _ _ _ | .resolving _ => True
  | _ => False

/-- No transaction that has read the row before it was deleted writes it afterwards. -/
def Undeleted (s : State) : Label → Prop
  | .write k => ∀ h ∈ s.held k, ∀ r ∈ s.row, r.state = .expunged → SparesTombstone s h
  | _ => True

instance (s : State) (h : Held) : Decidable (SparesTombstone s h) := by
  cases h <;> unfold SparesTombstone <;> infer_instance

instance (s : State) (l : Label) : Decidable (Undeleted s l) := by
  cases l <;> unfold Undeleted <;> infer_instance

/-- What the two records say of a row that was not deleted. -/
structure Recorded (s : State) : Prop where
  tombstone : ∀ r ∈ s.row, r.state = .expunged → s.deleted = true
  repointed : s.deleted = false → s.repointed = false

theorem mem_map_row {f : Row → Row} (h : r ∈ s.row.map f) :
    ∃ x, s.row = some x ∧ r = f x := by
  obtain ⟨x, hx, rfl⟩ := Option.map_eq_some_iff.1 h
  exact ⟨x, hx, rfl⟩

theorem recorded_write (hs : Recorded s) (h : Held) : Recorded (write s h) := by
  -- a row that is put into another state than expunged
  have hother : ∀ {t : State} {f : Row → Row}, t.row = s.row.map f →
      (∀ r, (f r).state ≠ .expunged) → ∀ r ∈ t.row, r.state = .expunged → t.deleted = true := by
    intro t f hrow hstate r hr hexpunged
    rw [hrow] at hr
    obtain ⟨x, -, rfl⟩ := mem_map_row hr
    exact absurd hexpunged (hstate x)
  have hpointed : ∀ id, (pointToLive s id).deleted = false →
      (pointToLive s id).repointed = false := by
    intro id hdeleted
    replace hdeleted : s.deleted = false := hdeleted
    rw [pointToLive, hdeleted, hs.repointed hdeleted]
    rfl
  cases h with
  | starting raw folder date | failing | confirmingRemoval | finalising =>
    exact ⟨hother rfl fun _ => RowState.noConfusion, hs.repointed⟩
  | confirming liveId => exact ⟨hother rfl fun _ => RowState.noConfusion, hpointed liveId⟩
  | withdrawing origin =>
    cases origin with
    | none => exact ⟨fun _ hr => (by cases hr), hs.repointed⟩
    | some id => exact ⟨fun _ hr => (by cases hr), hpointed id⟩
  | repointing found =>
    refine ⟨fun r hr hexpunged => ?_, hs.repointed⟩
    obtain ⟨x, hx, rfl⟩ := mem_map_row hr
    exact hs.tombstone x hx hexpunged
  | deleting =>
    refine ⟨fun r hr _ => ?_, fun hdeleted => ?_⟩
    · obtain ⟨x, hx, -⟩ := mem_map_row hr
      simp only [write, hx, Option.isSome_some, Bool.or_true]
    · exact hs.repointed (Bool.or_eq_false_iff.1 hdeleted).1
  | judging | resolving => exact hs

theorem wasPermanentlyExpunged_iff (hrow : s.row = some r) (hstate : r.state = .expunged)
    (id : Uuid) :
    wasPermanentlyExpunged s.row (.live id) = true ↔ r.originMessageId = some id := by
  rw [hrow, wasPermanentlyExpunged, Option.any_some, decide_eq_true hstate, Bool.true_and,
    decide_eq_true_eq]

/-- A write leaves a permanent delete final exactly when it spares the tombstone. -/
theorem final_write (hs : Recorded s) (hfinal : Final s) (h : Held) :
    Final (write s h) ↔ ∀ r ∈ s.row, r.state = .expunged → SparesTombstone s h := by
  cases hdeleted : s.deleted with
  | false =>
    refine iff_of_true ?_ ?_
    · cases h with
      | deleting =>
        intro hnow
        simp only [write, hdeleted, Bool.false_or] at hnow
        obtain ⟨r, hrow⟩ := Option.isSome_iff_exists.1 hnow
        have hmoved : (write s .deleting).row = some r.expunged := by
          simp only [write, hrow, Option.map_some]
        refine ⟨⟨r.expunged, hmoved, rfl, rfl⟩, fun id hid => ?_, hs.repointed hdeleted⟩
        simp only [write, hdeleted, hrow, Bool.false_eq_true, if_false, Option.bind_some] at hid
        exact (wasPermanentlyExpunged_iff hmoved rfl id).2 hid
      | withdrawing origin =>
        intro hnow
        cases origin with
        | none | some id =>
          replace hnow : s.deleted = true := hnow
          rw [hdeleted] at hnow
          cases hnow
      | _ =>
        intro hnow
        replace hnow : s.deleted = true := hnow
        rw [hdeleted] at hnow
        cases hnow
    · intro r hr hstate
      have hyes := hs.tombstone r hr hstate
      rw [hdeleted] at hyes
      cases hyes
  | true =>
    obtain ⟨⟨r, hrow, hstate, hvisible⟩, hfound, hrepointed⟩ := hfinal hdeleted
    have hcond : (∀ x ∈ s.row, x.state = .expunged → SparesTombstone s h) ↔
        SparesTombstone s h := by
      rw [hrow]
      exact ⟨fun hall => hall r rfl hstate, fun hone _ _ _ => hone⟩
    rw [hcond]
    -- a row that is written as something else than a tombstone
    have hlost : ∀ {t : State} {f : Row → Row}, t.deleted = true → t.row = s.row.map f →
        (∀ x, (f x).state ≠ .expunged) → ¬ Final t := by
      intro t f hnow hmoved hne ht
      obtain ⟨⟨x, hx, hexpunged, -⟩, -⟩ := ht hnow
      rw [hmoved] at hx
      obtain ⟨y, -, rfl⟩ := mem_map_row hx
      exact hne y hexpunged
    cases h with
    | starting | confirming | failing | confirmingRemoval | finalising =>
      exact iff_of_false (hlost hdeleted rfl fun _ => RowState.noConfusion) id
    | withdrawing origin =>
      refine iff_of_false (fun ht => ?_) id
      cases origin with
      | none | some id =>
        obtain ⟨⟨x, hx, -⟩, -⟩ := ht hdeleted
        cases hx
    | repointing found =>
      have hmoved : (write s (.repointing found)).row =
          some { r with originMessageId := some found } := by
        simp only [write, hrow, Option.map_some]
      have hasks := wasPermanentlyExpunged_iff hmoved hstate
      constructor
      · intro ht id hid
        -- the tombstone answers under the new origin alone
        have hsame := (hasks id).1 ((ht hdeleted).2.1 id hid)
        exact (Option.some.inj hsame).symm
      · intro hsame _
        refine ⟨⟨_, hmoved, hstate, hvisible⟩, fun id hid => (hasks id).2 ?_, hrepointed⟩
        rw [hsame id hid]
    | deleting =>
      have hmoved : (write s .deleting).row = some r.expunged := by
        simp only [write, hrow, Option.map_some]
      refine iff_of_true (fun _ => ⟨⟨r.expunged, hmoved, rfl, rfl⟩, fun id hid => ?_,
        hrepointed⟩) trivial
      simp only [write, hdeleted, if_true] at hid
      exact (wasPermanentlyExpunged_iff hmoved rfl id).2
        ((wasPermanentlyExpunged_iff hrow hstate id).1 (hfound id hid))
    | judging | resolving => exact iff_of_true hfinal trivial

theorem recorded_kept (hs : Recorded s) (h : Kept s t) : Recorded t where
  tombstone r hr hexpunged := by
    rw [h.deleted]
    obtain hsame | ⟨x, -, -, hmoved⟩ := h.row
    · rw [hsame] at hr
      exact hs.tombstone r hr hexpunged
    · rw [hmoved] at hr
      cases hr
      cases hexpunged
  repointed hdeleted := by
    rw [h.deleted] at hdeleted
    rw [h.repointed]
    exact hs.repointed hdeleted

theorem final_kept (hs : Final s) (h : Kept s t) : Final t := by
  intro hdeleted
  rw [h.deleted] at hdeleted
  obtain ⟨⟨r, hrow, hstate, hvisible⟩, hfound, hrepointed⟩ := hs hdeleted
  have hsame : t.row = s.row := by
    obtain hsame | ⟨x, hx, hverified, -⟩ := h.row
    · exact hsame
    · rw [hrow] at hx
      cases hx
      rw [hstate] at hverified
      cases hverified
  refine ⟨⟨r, hsame.trans hrow, hstate, hvisible⟩, fun id hid => ?_,
    h.repointed.trans hrepointed⟩
  rw [h.deletedOrigin] at hid
  rw [hsame]
  exact hfound id hid

theorem recorded_step (hs : Recorded s) (hstep : step P s l = some t) :
    Recorded t := by
  by_cases hl : ∃ k, l = .write k
  · obtain ⟨k, rfl⟩ := hl
    obtain ⟨h, -, rfl⟩ := step_write hstep
    exact recorded_kept (recorded_write hs h) (kept_hold _ k none)
  · exact recorded_kept hs (step_kept (fun k hk => hl ⟨k, hk⟩) hstep)

theorem final_step_iff (hs : Recorded s) (hfinal : Final s)
    (hstep : step P s l = some t) : Final t ↔ Undeleted s l := by
  by_cases hl : ∃ k, l = .write k
  · obtain ⟨k, rfl⟩ := hl
    obtain ⟨h, hheld, rfl⟩ := step_write hstep
    have hcond : Undeleted s (.write k) ↔
        ∀ r ∈ s.row, r.state = .expunged → SparesTombstone s h := by
      rw [Undeleted, hheld]
      exact ⟨fun hall => hall h rfl, fun hone x hx => by cases hx; exact hone⟩
    rw [hcond]
    exact final_write hs hfinal h
  · refine iff_of_true (final_kept hfinal (step_kept (fun k hk => hl ⟨k, hk⟩) hstep)) ?_
    cases l with
    | write k => exact absurd ⟨k, rfl⟩ hl
    | _ => trivial

/-- **A permanent delete is final**, in every state of a run, exactly when no transaction that
has read the row before the delete writes another state or another origin over it afterwards. -/
theorem permanent_delete_final (P : Platform) (ls : List Label) {s t : State} (hs : Fresh s)
    (h : (system P).exec s ls = some t) :
    (∀ u ∈ (system P).trail s ls, Final u) ↔ (system P).execMeets Undeleted s ls = true := by
  refine TransitionSystem.trail_iff_execMeets (fun _ _ _ => recorded_step)
    (fun _ _ _ => final_step_iff) ls ?_ ?_ h
  · refine ⟨fun r hr hexpunged => ?_, fun _ => hs.repointed⟩
    exact absurd hexpunged (hs.row r hr).2.1
  · intro hdeleted
    rw [hs.deleted] at hdeleted
    cases hdeleted

/-- A restore is asked for after the delete has read the row, and given up. -/
def deletedRun : List Label :=
  [.readVisible 1, .readGlaciered 2 9, .rollback 2, .write 1, .postimap [landed] [], .tick 100]

theorem permanent_delete_final_undisturbed :
    ((system bytesPlatform).exec (untouched glacieredRow) deletedRun).isSome = true ∧
      ∀ u ∈ (system bytesPlatform).trail (untouched glacieredRow) deletedRun, Final u := by
  have hruns : ((system bytesPlatform).exec (untouched glacieredRow) deletedRun).isSome = true := by
    decide +kernel
  obtain ⟨t, ht⟩ := Option.isSome_iff_exists.1 hruns
  refine ⟨hruns, ?_⟩
  exact (permanent_delete_final bytesPlatform deletedRun fresh_glaciered ht).2 (by decide +kernel)

def revivedRun : List Label :=
  [.readGlaciered 1 9, .write 1, .progress 100 .sent, .postimap [landed] [], .readLanded 2 200,
    .readVisible 3, .write 3, .write 2]

theorem confirmed_after_delete :
    ¬ ∀ P s, (system P).Reachable TransitionSystem.anyStep s → Final s := by
  intro h
  have hruns : ((system bytesPlatform).exec (untouched glacieredRow) revivedRun).any (fun s =>
      s.deleted && decide (s.tags = .live 200) && s.repointed) = true := by decide +kernel
  obtain ⟨s, hexec, hfacts⟩ := (Option.any_eq_true _ _).1 hruns
  rw [Bool.and_eq_true, Bool.and_eq_true] at hfacts
  obtain ⟨⟨hdeleted, -⟩, hrepointed⟩ := hfacts
  have hreach : (system bytesPlatform).Reachable TransitionSystem.anyStep s :=
    TransitionSystem.reachable_of_exec_any revivedRun fresh_glaciered hexec
  have hnot := (h bytesPlatform s hreach hdeleted).2.2
  rw [hrepointed] at hnot
  cases hnot

end MailVerdict.Analysis.RestoreRaces
