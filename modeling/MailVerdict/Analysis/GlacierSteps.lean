import MailVerdict.Model.Glacier

/-!
# What one step does to the glacier and the mirror

`RowMoves` and `MessageMoves` list the ways a step rewrites a row it finds, and
`Effect` adds the rows that appear and go. Each operation has one lemma saying
that its effect is of this shape (`step_effect` collects them); the invariants
about identity, loss and visibility read the rest off.
-/

namespace MailVerdict.Analysis.Glacier

open MailVerdict.Computation Model.Glacier

variable {m : Message} {mid gid : Uuid}

variable {P : Platform}

inductive RowMoves (s : State P) (l : Label) (g g' : GlacierMessage P) : Prop
  | kept (h : g' = g)
  | verified (hold : g.state = .copied) (hthere : originGone s g = false)
      (h : g' = { g with state := .verified })
  | removing (hl : l = .expungeMessage g.id) (hold : g.state = .verified)
      (h : g' = { g with
        state := .removing, expungeRequestedAt := some s.now, visibleAt := some s.now })
  | confirmed (hold : g.state = .removing)
      (h : g' = { g with state := .glaciered, glacieredAt := some s.now })
  | repointed (m : Message) (hl : l = .reresolveOrigins g.id (some m.id))
      (hold : g.state = .verified) (hm : m ∈ s.messages.rows) (hlike : lookAlike g m = true)
      (h : g' = { g with originMessageId := some m.id })
  | finalised (hl : l = .reresolveOrigins g.id none) (hold : g.state = .verified)
      (hgone : originGone s g = true) (hnone : s.messages.rows.any (lookAlike g) = false)
      (h : g' = { g with
        state := .glaciered, glacieredAt := some s.now, originMessageId := none })
  | restoring (id : Uuid) (hold : g.state = .glaciered)
      (h : g' = { g with
        state := .restoring, restoreOutboxId := some id, restoreStartedAt := some s.now })
  | restored (m : Message) (hl : l = .confirmRestores g.id m.id) (hold : g.state = .restoring)
      (hm : m ∈ s.messages.rows)
      (hlive : m.live = true)
      (hbytes : sqlEq (m.rawSource.map P.sha256) (g.rawSource.map P.sha256) = true)
      (h : g' = { g with
        state := .restored, restoredAt := some s.now, visibleAt := none, rawSource := none
        attachments := [] })
  | failed (reason : String) (hold : g.state = .restoring) (hnot : g.restoredAt = none)
      (h : g' = { g with state := .glaciered, lastError := some reason })
  | refilled (m : Message) (folderId : Uuid) (hl : l = .copyMessage m.id)
      (hm : m ∈ s.messages.rows) (helig : eligible s.config m = true)
      (hfolder : s.config.glacierFolderId m.accountId = some folderId)
      (htomb : g.restoredAt.isSome = true) (hacc : g.accountId = m.accountId)
      (hkey : g.msgKey = m.msgKey P) (h : g' = { refilledRow g folderId m with id := g.id })

inductive MessageMoves (s : State P) (l : Label) (m m' : Message) : Prop
  | kept (h : m' = m)
  | expunged (g : GlacierMessage P) (hg : g ∈ s.glacier.rows)
      (hl : l = .expungeMessage g.id ∧ g.state = .verified ∧ g.originMessageId = some m.id ∨
        l = .resolveDuplicate m.id g.id ∧ (m.id, g.id) ∈ s.pendingDuplicates ∧
          (g.state = .verified ∨ g.state = .removing ∨ g.state = .glaciered))
      (hlive : m.live = true) (hadmits : g.admits m = true)
      (h : m' = { m with expungedAt := some s.now })
  | reverted (h : m' = { m with expungedAt := none })

/-- A glacier row that was not there: the copy of a live message. -/
def Copied (s t : State P) (l : Label) (g' : GlacierMessage P) : Prop :=
  ∃ m ∈ s.messages.rows, ∃ folderId, l = .copyMessage m.id ∧ eligible s.config m = true ∧
    g' = copiedRow P s.nextId folderId m ∧ s.nextId < t.nextId

def Withdrawn (s t : State P) (g : GlacierMessage P) : Prop :=
  g.state = .removing ∧ liveIntact s g = true ∧ t.messages = s.messages

/-- A row of the mirror that went: an expunge landed, a client removed it, or a
resync brought it back under a new id. -/
def Gone (s t : State P) (l : Label) (m : Message) : Prop :=
  (m.live = false ∧ t.glacier = s.glacier) ∨ l = .clientExpunges m.id ∨
    (l = .resync m.id ∧ ∃ id uid,
      { m with id := id, imapUid := uid, expungedAt := none } ∈ t.messages.rows)

structure Effect (s : State P) (l : Label) (t : State P) : Prop where
  nextId_le : s.nextId ≤ t.nextId
  glacierBack : ∀ g' ∈ t.glacier.rows,
    (∃ g ∈ s.glacier.rows, g'.id = g.id ∧ RowMoves s l g g') ∨ Copied s t l g'
  glacierForth : ∀ g ∈ s.glacier.rows,
    (∃ g' ∈ t.glacier.rows, g'.id = g.id ∧ RowMoves s l g g') ∨ Withdrawn s t g
  messagesBack : ∀ m' ∈ t.messages.rows,
    (∃ m ∈ s.messages.rows, m'.id = m.id ∧ MessageMoves s l m m') ∨
      m'.id = s.nextId ∧ s.nextId < t.nextId
  messagesForth : ∀ m ∈ s.messages.rows,
    (∃ m' ∈ t.messages.rows, m'.id = m.id ∧ MessageMoves s l m m') ∨ Gone s t l m
  pending : ∀ p ∈ t.pendingDuplicates, p ∈ s.pendingDuplicates ∨
    t.glacier = s.glacier ∧ t.messages = s.messages ∧ ∃ m ∈ s.messages.rows,
      ∃ g ∈ s.glacier.rows, p = (m.id, g.id) ∧ g.restoredAt = none ∧ m.rawSource.isSome = true ∧
        m.rawSource.map P.sha256 = g.contentSha256
  held : ∀ b ∈ t.held, b ∈ s.held ∨ ∃ g' ∈ t.glacier.rows, g'.rawSource = some b

section Shapes

variable {s t : State P} {l : Label}

theorem Effect.same (hid : s.nextId ≤ t.nextId) (hg : t.glacier = s.glacier)
    (hm : t.messages = s.messages) (hp : ∀ p ∈ t.pendingDuplicates, p ∈ s.pendingDuplicates)
    (hh : t.held = s.held) : Effect s l t where
  nextId_le := hid
  glacierBack := fun g' hg' => .inl ⟨g', hg ▸ hg', rfl, .kept rfl⟩
  glacierForth := fun g hg' => .inl ⟨g, hg.symm ▸ hg', rfl, .kept rfl⟩
  messagesBack := fun m' hm' => .inl ⟨m', hm ▸ hm', rfl, .kept rfl⟩
  messagesForth := fun m hm' => .inl ⟨m, hm.symm ▸ hm', rfl, .kept rfl⟩
  pending := fun p hp' => .inl (hp p hp')
  held := fun _ hb => .inl (hh ▸ hb)

theorem mem_setGlacier {g r : GlacierMessage P} (g' : GlacierMessage P) (hg : g ∈ s.glacier.rows)
    (hid : g'.id = g.id) :
    r ∈ (setGlacier s g').glacier.rows ↔ r = g' ∨ r ∈ s.glacier.rows ∧ r.id ≠ g.id := by
  unfold setGlacier
  rw [KeyedTable.mem_update]
  constructor
  · rintro ⟨r', hr', rfl⟩
    by_cases h : r'.id = g'.id
    · left
      simp only [h, decide_true, if_true]
    · right
      simp only [h, decide_false, Bool.false_eq_true, if_false]
      exact ⟨hr', hid ▸ h⟩
  · rintro (rfl | ⟨hr, hne⟩)
    · have hself : ({ r with id := g.id } : GlacierMessage P) = r := by
        cases r
        subst hid
        rfl
      exact ⟨g, hg, by simp [hid, hself]⟩
    · exact ⟨r, hr, by simp [hid, hne]⟩

theorem setGlacier_back {g : GlacierMessage P} (g' : GlacierMessage P)
    (hg : g ∈ s.glacier.rows) (hid : g'.id = g.id) (hmove : RowMoves s l g g') :
    ∀ r' ∈ (setGlacier s g').glacier.rows, ∃ r ∈ s.glacier.rows, r'.id = r.id ∧ RowMoves s l r r' := by
  intro r hr
  rcases (mem_setGlacier g' hg hid).1 hr with rfl | ⟨hr, -⟩
  · exact ⟨g, hg, hid, hmove⟩
  · exact ⟨r, hr, rfl, .kept rfl⟩

theorem setGlacier_forth {g : GlacierMessage P} (g' : GlacierMessage P)
    (hg : g ∈ s.glacier.rows) (hid : g'.id = g.id) (hmove : RowMoves s l g g') :
    ∀ r ∈ s.glacier.rows, ∃ r' ∈ (setGlacier s g').glacier.rows, r'.id = r.id ∧ RowMoves s l r r' := by
  intro r hr
  by_cases hrg : r.id = g.id
  · have heq := s.glacier.eq_of_key_eq hr hg hrg
    subst heq
    exact ⟨g', (mem_setGlacier g' hg hid).2 (.inl rfl), hid, hmove⟩
  · exact ⟨r, (mem_setGlacier g' hg hid).2 (.inr ⟨hr, hrg⟩), rfl, .kept rfl⟩

theorem Effect.set {g : GlacierMessage P} (g' : GlacierMessage P) (hg : g ∈ s.glacier.rows)
    (hid : g'.id = g.id)
    (hmove : RowMoves s l g g') (hnext : s.nextId ≤ t.nextId)
    (htg : t.glacier = (setGlacier s g').glacier) (hm : t.messages = s.messages)
    (hp : t.pendingDuplicates = s.pendingDuplicates)
    (hh : ∀ b ∈ t.held, b ∈ s.held ∨ g'.rawSource = some b) : Effect s l t where
  nextId_le := hnext
  glacierBack := fun r hr => .inl (setGlacier_back g' hg hid hmove r (htg ▸ hr))
  glacierForth := fun r hr => .inl (htg ▸ setGlacier_forth g' hg hid hmove r hr)
  messagesBack := fun m' hm' => .inl ⟨m', hm ▸ hm', rfl, .kept rfl⟩
  messagesForth := fun m hm' => .inl ⟨m, hm.symm ▸ hm', rfl, .kept rfl⟩
  pending := fun p hp' => .inl (hp ▸ hp')
  held := by
    intro b hb
    rcases hh b hb with hb | hb
    · exact .inl hb
    · exact .inr ⟨g', by rw [htg, mem_setGlacier g' hg hid]; exact .inl rfl, hb⟩

theorem mem_setExpunged {r : Message} (at_ : Option Time) (hm : m ∈ s.messages.rows) :
    r ∈ (s.messages.update (fun r => decide (r.id = m.id))
        (fun r => { r with expungedAt := at_ }) (fun _ => rfl)).rows ↔
      r = { m with expungedAt := at_ } ∨ r ∈ s.messages.rows ∧ r.id ≠ m.id := by
  rw [KeyedTable.mem_update]
  constructor
  · rintro ⟨r', hr', rfl⟩
    by_cases h : r'.id = m.id
    · left
      have heq := s.messages.eq_of_key_eq hr' hm h
      rw [heq, if_pos (decide_eq_true rfl)]
    · right
      simp only [h, decide_false, Bool.false_eq_true, if_false]
      exact ⟨hr', h⟩
  · rintro (rfl | ⟨hr, hne⟩)
    · exact ⟨m, hm, by simp⟩
    · exact ⟨r, hr, by simp [hne]⟩

theorem expungeIfMatches_cases (s : State P) (messageId : Uuid) (g : GlacierMessage P) :
    expungeIfMatches s messageId g = (s, 0) ∨
    ∃ m ∈ s.messages.rows, m.id = messageId ∧ m.live = true ∧ g.admits m = true ∧
      expungeIfMatches s messageId g = ({ s with
        messages := s.messages.update (fun r => decide (r.id = m.id))
          (fun r => { r with expungedAt := some s.now }) (fun _ => rfl) }, 1) := by
  unfold expungeIfMatches
  cases hfind : s.messages.find? messageId with
  | none => exact .inl rfl
  | some m =>
    obtain ⟨hm, rfl⟩ := KeyedTable.find?_eq_some_iff.1 hfind
    by_cases hmatch : (m.live && g.admits m) = true
    · dsimp only
      rw [if_pos hmatch]
      rw [Bool.and_eq_true] at hmatch
      exact .inr ⟨m, hm, rfl, hmatch.1, hmatch.2, rfl⟩
    · dsimp only
      rw [if_neg hmatch]
      exact .inl rfl

theorem Effect.mark {at_ : Option Time} (hm : m ∈ s.messages.rows)
    (hmove : MessageMoves s l m { m with expungedAt := at_ })
    (hnext : s.nextId ≤ t.nextId)
    (htm : t.messages = s.messages.update (fun r => decide (r.id = m.id))
      (fun r => { r with expungedAt := at_ }) (fun _ => rfl))
    (hback : ∀ g' ∈ t.glacier.rows, ∃ g ∈ s.glacier.rows, g'.id = g.id ∧ RowMoves s l g g')
    (hforth : ∀ g ∈ s.glacier.rows, ∃ g' ∈ t.glacier.rows, g'.id = g.id ∧ RowMoves s l g g')
    (hp : ∀ p ∈ t.pendingDuplicates, p ∈ s.pendingDuplicates)
    (hh : t.held = s.held) : Effect s l t where
  nextId_le := hnext
  glacierBack := fun g' hg' => .inl (hback g' hg')
  glacierForth := fun g hg => .inl (hforth g hg)
  messagesBack := by
    intro r hr
    rw [htm, mem_setExpunged at_ hm] at hr
    rcases hr with rfl | ⟨hr, -⟩
    · exact .inl ⟨m, hm, rfl, hmove⟩
    · exact .inl ⟨r, hr, rfl, .kept rfl⟩
  messagesForth := by
    intro r hr
    by_cases hrm : r.id = m.id
    · have heq := s.messages.eq_of_key_eq hr hm hrm
      subst heq
      have hmem := (mem_setExpunged at_ hm).2 (.inl rfl)
      exact .inl ⟨{ r with expungedAt := at_ }, htm ▸ hmem, rfl, hmove⟩
    · exact .inl ⟨r, by rw [htm, mem_setExpunged at_ hm]; exact .inr ⟨hr, hrm⟩, rfl, .kept rfl⟩
  pending := fun p hp' => .inl (hp p hp')
  held := fun b hb => .inl (hh ▸ hb)

theorem Effect.remove (hgone : Gone s t l m)
    (hnext : s.nextId ≤ t.nextId) (hg : t.glacier = s.glacier)
    (hback : ∀ m' ∈ t.messages.rows, m' ∈ s.messages.rows ∨
      m'.id = s.nextId ∧ s.nextId < t.nextId)
    (hforth : ∀ r ∈ s.messages.rows, r.id ≠ m.id → r ∈ t.messages.rows)
    (hm : m ∈ s.messages.rows)
    (hp : t.pendingDuplicates = s.pendingDuplicates) (hh : t.held = s.held) : Effect s l t where
  nextId_le := hnext
  glacierBack := fun g' hg' => .inl ⟨g', hg ▸ hg', rfl, .kept rfl⟩
  glacierForth := fun g hg' => .inl ⟨g, hg.symm ▸ hg', rfl, .kept rfl⟩
  messagesBack := by
    intro r hr
    rcases hback r hr with hr | hr
    · exact .inl ⟨r, hr, rfl, .kept rfl⟩
    · exact .inr hr
  messagesForth := by
    intro r hr
    by_cases hrm : r.id = m.id
    · exact .inr (s.messages.eq_of_key_eq hr hm hrm ▸ hgone)
    · exact .inl ⟨r, hforth r hr hrm, rfl, .kept rfl⟩
  pending := fun p hp' => .inl (hp ▸ hp')
  held := fun b hb => .inl (hh ▸ hb)

end Shapes

/-! ## The operations -/

section Operations

variable {s t : State P}

theorem found {R : Type} {key : R → Uuid} {tab : KeyedTable key} {k : Uuid} {r : R}
    (h : tab.find? k = some r) : r ∈ tab.rows ∧ key r = k :=
  KeyedTable.find?_eq_some_iff.1 h

/-- **What `copy_message` does**: nothing, report a duplicate, insert a row, or
refill a tombstone. -/
inductive CopyCases (s : State P) (mid : Uuid) (c : State P × CopyOutcome) : Prop
  | idle (h : c.1 = s) (ho : c.2.status ≠ .duplicateRemovable)
  | duplicate (m : Message) (hm : m ∈ s.messages.rows) (hid : m.id = mid) (g : GlacierMessage P)
      (hg : g ∈ s.glacier.rows) (h : c.1 = s) (ho : c.2.status = .duplicateRemovable)
      (hgid : c.2.glacierId = some g.id) (hnot : g.restoredAt = none)
      (helig : eligible s.config m = true) (hsame : m.rawSource.map P.sha256 = g.contentSha256)
  | inserted (m : Message) (hm : m ∈ s.messages.rows) (hid : m.id = mid) (folderId : Uuid)
      (helig : eligible s.config m = true)
      (hfresh : (copiedRow P s.nextId folderId m).id ∉ s.glacier.rows.map GlacierMessage.id)
      (h : c.1 = { s with
        nextId := s.nextId + 1
        glacier := s.glacier.insert (copiedRow P s.nextId folderId m) hfresh
        held := s.held ++ m.rawSource.toList })
      (ho : c.2.status ≠ .duplicateRemovable)
  | refilled (m : Message) (hm : m ∈ s.messages.rows) (hid : m.id = mid) (folderId : Uuid)
      (g : GlacierMessage P) (hg : g ∈ s.glacier.rows) (helig : eligible s.config m = true)
      (hfolder : s.config.glacierFolderId m.accountId = some folderId)
      (htomb : g.restoredAt.isSome = true) (hacc : g.accountId = m.accountId)
      (hkey : g.msgKey = m.msgKey P)
      (h : c.1 = { setGlacier s { refilledRow g folderId m with id := g.id } with
        held := s.held ++ m.rawSource.toList })
      (ho : c.2.status ≠ .duplicateRemovable)

theorem copyMessage_cases (s : State P) (mid : Uuid) : CopyCases s mid (copyMessage s mid) := by
  unfold copyMessage
  cases hfind : s.messages.find? mid with
  | none => exact .idle rfl (by simp)
  | some m =>
    obtain ⟨hm, hid⟩ := found hfind
    by_cases helig : eligible s.config m = true
    swap
    · simp only [helig, Bool.not_false, if_true]
      exact .idle rfl (by simp)
    simp only [helig, Bool.not_true, Bool.false_eq_true, if_false]
    cases hfolder : s.config.glacierFolderId m.accountId with
    | none => exact .idle rfl (by simp)
    | some folderId =>
      simp only
      cases hexist : s.glacier.rows.find? fun g =>
        decide (g.accountId = m.accountId) && decide (g.msgKey = m.msgKey P) with
      | none =>
        by_cases hfresh : (copiedRow P s.nextId folderId m).id ∉
            s.glacier.rows.map GlacierMessage.id
        · simp only [dif_pos hfresh]
          exact .inserted m hm hid folderId helig hfresh rfl (by simp)
        · simp only [dif_neg hfresh]
          exact .idle rfl (by simp)
      | some g =>
        have hg := List.mem_of_find?_eq_some hexist
        have hkey := List.find?_some hexist
        simp only [Bool.and_eq_true, decide_eq_true_eq] at hkey
        by_cases htomb : g.restoredAt.isSome = true
        · simp only [htomb, if_true]
          exact .refilled m hm hid folderId g hg helig hfolder htomb hkey.1 hkey.2 rfl
            (by simp)
        · have hnot : g.restoredAt = none := by simpa using htomb
          simp only [htomb, Bool.false_eq_true, if_false, handleExistingGlacierRow]
          by_cases hsame : m.rawSource.map P.sha256 = g.contentSha256
          · simp only [hsame, if_true]
            exact .duplicate m hm hid g hg rfl rfl rfl hnot helig hsame
          · simp only [hsame, if_false]
            exact .idle rfl (by simp)

theorem eligible_rawSource {c : Config} (h : eligible c m = true) :
    m.rawSource.isSome = true := by
  simp only [eligible, Bool.and_eq_true] at h
  exact h.1.1.1.1.1.2

/-- What a copy into the glacier does, and when. -/
theorem copyMessage_effect (h : step s (.copyMessage mid) = some t) :
    Effect s (.copyMessage mid) t := by
  have other : (copyMessage s mid).2.status ≠ .duplicateRemovable → t = (copyMessage s mid).1 := by
    intro ho
    simp only [step] at h
    split at h
    · contradiction
    · exact (Option.some.inj h).symm
  cases copyMessage_cases s mid with
  | idle hs ho =>
    rw [other ho, hs]
    exact .same (Nat.le_refl _) rfl rfl (fun _ hp => hp) rfl
  | duplicate m hm hid g hg hs ho hgid hnot helig hsame =>
    simp only [step, ho, hgid, hs, Option.some.injEq] at h
    subst h
    refine ⟨Nat.le_refl _, fun g' hg' => .inl ⟨g', hg', rfl, .kept rfl⟩,
      fun g' hg' => .inl ⟨g', hg', rfl, .kept rfl⟩,
      fun m' hm' => .inl ⟨m', hm', rfl, .kept rfl⟩,
      fun m' hm' => .inl ⟨m', hm', rfl, .kept rfl⟩, ?_, fun _ hb => .inl hb⟩
    intro p hp
    rcases List.mem_append.1 hp with hp | hp
    · exact .inl hp
    · rw [List.mem_singleton] at hp
      exact .inr ⟨rfl, rfl, m, hm, g, hg, by rw [hp, hid], hnot, eligible_rawSource helig, hsame⟩
  | inserted m hm hid folderId helig hfresh hs ho =>
    rw [other ho, hs]
    subst hid
    refine ⟨Nat.le_succ _, ?_, ?_, fun m' hm' => .inl ⟨m', hm', rfl, .kept rfl⟩,
      fun m' hm' => .inl ⟨m', hm', rfl, .kept rfl⟩, fun _ hp => .inl hp, ?_⟩
    · intro g' hg'
      rcases (KeyedTable.mem_insert hfresh).1 hg' with hg' | rfl
      · exact .inl ⟨g', hg', rfl, .kept rfl⟩
      · exact .inr ⟨m, hm, folderId, rfl, helig, rfl, Nat.lt_succ_self _⟩
    · exact fun g hg => .inl ⟨g, (KeyedTable.mem_insert hfresh).2 (.inl hg), rfl, .kept rfl⟩
    · intro b hb
      rcases List.mem_append.1 hb with hb | hb
      · exact .inl hb
      · exact .inr ⟨copiedRow P s.nextId folderId m, (KeyedTable.mem_insert hfresh).2 (.inr rfl),
          by simpa [copiedRow] using hb⟩
  | refilled m hm hid folderId g hg helig hfolder htomb hacc hkey hs ho =>
    rw [other ho, hs]
    subst hid
    refine Effect.set { refilledRow g folderId m with id := g.id } hg rfl
      (.refilled m folderId rfl hm helig hfolder htomb hacc hkey rfl) (Nat.le_refl _) rfl rfl rfl ?_
    intro b hb
    rcases List.mem_append.1 hb with hb | hb
    · exact .inl hb
    · exact .inr (by simpa [refilledRow, copiedRow] using hb)

theorem verifyMessage_effect (h : step s (.verifyMessage gid) = some t) :
    Effect s (.verifyMessage gid) t := by
  have ht : t = (verifyMessage s gid).1 := (Option.some.inj h).symm
  rw [ht]
  unfold verifyMessage
  split
  · exact .same (Nat.le_refl _) rfl rfl (fun _ hp => hp) rfl
  · rename_i g hfind
    split
    · exact .same (Nat.le_refl _) rfl rfl (fun _ hp => hp) rfl
    · rename_i m hmfind
      split
      · rename_i hcond
        simp only [Bool.and_eq_true, decide_eq_true_eq, verifies] at hcond
        have hthere : originGone s g = false := by
          unfold originGone
          simp only [hmfind, hcond.2.1.1.1.1.1, Bool.not_true]
        exact Effect.set { g with state := .verified } (found hfind).1 rfl
          (.verified hcond.1 hthere rfl) (Nat.le_refl _) rfl rfl rfl fun _ hb => .inl hb
      · exact .same (Nat.le_refl _) rfl rfl (fun _ hp => hp) rfl

theorem expungeMessage_effect (h : step s (.expungeMessage gid) = some t) :
    Effect s (.expungeMessage gid) t := by
  have ht : t = (expungeMessage s gid).1 := (Option.some.inj h).symm
  have idle : t = s → Effect s (.expungeMessage gid) t := by
    rintro rfl
    exact .same (Nat.le_refl _) rfl rfl (fun _ hp => hp) rfl
  unfold expungeMessage at ht
  split at ht
  · exact idle ht
  · rename_i g hfind
    obtain ⟨hg, rfl⟩ := found hfind
    split at ht
    · exact idle ht
    · rename_i originId horigin
      split at ht
      · exact idle ht
      · rename_i hstate
        have hverified : g.state = .verified := by simpa using hstate
        rcases expungeIfMatches_cases (setGlacier s { g with
            state := .removing, expungeRequestedAt := some s.now, visibleAt := some s.now })
            originId g with hnone | ⟨m, hm, rfl, hlive, hadmits, hmark⟩
        · simp only [hnone, if_true] at ht
          exact idle ht
        · simp only [hmark, Nat.succ_ne_self, if_false] at ht
          have hmove : RowMoves s (.expungeMessage g.id) g { g with
              state := .removing, expungeRequestedAt := some s.now, visibleAt := some s.now } :=
            .removing rfl hverified rfl
          rw [ht]
          exact Effect.mark (s := s) hm
            (.expunged g hg (.inl ⟨rfl, hverified, horigin⟩) hlive hadmits rfl) (Nat.le_refl _) rfl
            (setGlacier_back _ hg rfl hmove) (setGlacier_forth _ hg rfl hmove) (fun _ hp => hp) rfl

/-- What the removal of a duplicate does, and when. -/
theorem resolveDuplicate_effect (h : step s (.resolveDuplicate mid gid) = some t) :
    Effect s (.resolveDuplicate mid gid) t := by
  simp only [step] at h
  split at h
  swap
  · cases h
  rename_i hpending
  have ht := (Option.some.inj h).symm
  have idle : (resolveDuplicate s mid gid).1 = s → Effect s (.resolveDuplicate mid gid) t := by
    intro hs
    rw [hs] at ht
    rw [ht]
    exact .same (Nat.le_refl _) rfl rfl (fun _ hp => List.mem_of_mem_erase hp) rfl
  unfold resolveDuplicate at ht idle
  split at ht
  · rename_i hfind
    exact idle (by simp only [hfind])
  · rename_i g hfind
    obtain ⟨hg, rfl⟩ := found hfind
    split at ht
    · rename_i hcond
      simp only [Bool.and_eq_true, Bool.or_eq_true, decide_eq_true_eq] at hcond
      rcases expungeIfMatches_cases s mid g with hnone | ⟨m, hm, rfl, hlive, hadmits, hmark⟩
      · simp only [hnone] at ht
        rw [ht]
        exact .same (Nat.le_refl _) rfl rfl (fun _ hp => List.mem_of_mem_erase hp) rfl
      · simp only [hmark] at ht
        rw [ht]
        refine Effect.mark hm (.expunged g hg (.inr ⟨rfl, hpending, ?_⟩) hlive hadmits rfl)
          (Nat.le_refl _) rfl (fun g' hg' => ⟨g', hg', rfl, .kept rfl⟩)
          (fun g' hg' => ⟨g', hg', rfl, .kept rfl⟩) (fun _ hp => List.mem_of_mem_erase hp) rfl
        rcases hcond.1 with (hst | hst) | hst
        · exact .inl hst
        · exact .inr (.inl hst)
        · exact .inr (.inr hst)
    · rw [ht]
      exact .same (Nat.le_refl _) rfl rfl (fun _ hp => List.mem_of_mem_erase hp) rfl

theorem confirmOrWithdraw_effect {grace : ℕ}
    (h : step s (.confirmOrWithdrawRemoving gid grace) = some t) :
    Effect s (.confirmOrWithdrawRemoving gid grace) t := by
  simp only [step, confirmOrWithdrawRemoving] at h
  split at h
  · cases h
  rename_i g hfind
  obtain ⟨hg, rfl⟩ := found hfind
  split at h
  swap
  · cases h
  rename_i hcond
  split at h
  · cases h
    exact Effect.set { g with state := .glaciered, glacieredAt := some s.now } hg rfl
      (.confirmed hcond.1 rfl) (Nat.le_refl _) rfl rfl rfl fun _ hb => .inl hb
  · split at h
    · cases h
      exact .same (Nat.le_refl _) rfl rfl (fun _ hp => hp) rfl
    · split at h
      · cases h
        exact .same (Nat.le_refl _) rfl rfl (fun _ hp => hp) rfl
      · rename_i hintact
        cases h
        refine ⟨Nat.le_refl _, ?_, ?_, fun m' hm' => .inl ⟨m', hm', rfl, .kept rfl⟩,
          fun m' hm' => .inl ⟨m', hm', rfl, .kept rfl⟩, fun _ hp => .inl hp, fun _ hb => .inl hb⟩
        · intro g' hg'
          exact .inl ⟨g', (KeyedTable.mem_erase.1 hg').1, rfl, .kept rfl⟩
        · intro g' hg'
          by_cases hid : g'.id = g.id
          · rw [s.glacier.eq_of_key_eq hg' hg hid]
            exact .inr ⟨hcond.1, by simpa using hintact, rfl⟩
          · exact .inl ⟨g', KeyedTable.mem_erase.2 ⟨hg', hid⟩, rfl, .kept rfl⟩

theorem reresolveOrigins_effect {pick : Option Uuid}
    (h : step s (.reresolveOrigins gid pick) = some t) :
    Effect s (.reresolveOrigins gid pick) t := by
  simp only [step, reresolveOrigins] at h
  split at h
  · cases h
  rename_i g hfind
  obtain ⟨hg, rfl⟩ := found hfind
  split at h
  swap
  · cases h
  rename_i hcond
  split at h
  · rename_i mid
    split at h
    · cases h
    rename_i m hmfind
    obtain ⟨hm, rfl⟩ := found hmfind
    split at h
    swap
    · cases h
    rename_i hlike
    cases h
    exact Effect.set { g with originMessageId := some m.id } hg rfl
      (.repointed m rfl hcond.1 hm hlike rfl) (Nat.le_refl _) rfl rfl rfl fun _ hb => .inl hb
  · split at h
    · cases h
    rename_i hnone
    cases h
    exact Effect.set
      { g with state := .glaciered, glacieredAt := some s.now, originMessageId := none } hg rfl
      (.finalised rfl hcond.1 hcond.2 (by simpa using hnone) rfl) (Nat.le_refl _) rfl rfl rfl
      fun _ hb => .inl hb

theorem glaciered_of_not_refused {g : GlacierMessage P} (h : restoreRefusal s (some g) = none) :
    g.state = .glaciered ∧ g.rawSource.isSome = true := by
  unfold restoreRefusal at h
  rw [Option.or_eq_none_iff] at h
  obtain ⟨-, h⟩ := h
  dsimp only at h
  split at h
  · cases h
  · split at h
    · split at h <;> cases h
    · rename_i hstate
      split at h
      · cases h
      · rename_i hraw
        have hst : g.state = .glaciered := by simpa using hstate
        refine ⟨hst, ?_⟩
        cases hr : g.rawSource with
        | none => simp [hr] at hraw
        | some b => rfl

theorem startRestore_effect {target : Uuid} (h : step s (.startRestore gid target) = some t) :
    Effect s (.startRestore gid target) t := by
  simp only [step, startRestore] at h
  split at h
  · cases h
  rename_i g hfind
  obtain ⟨hg, rfl⟩ := found hfind
  split at h
  swap
  · cases h
  rename_i hok
  split at h
  swap
  · cases h
  cases h
  exact Effect.set { g with
      state := .restoring, restoreOutboxId := some s.nextId, restoreStartedAt := some s.now } hg rfl
    (.restoring s.nextId (glaciered_of_not_refused hok).1 rfl) (Nat.le_succ _) rfl rfl rfl
    fun _ hb => .inl hb

theorem confirmRestores_effect {live : Uuid} (h : step s (.confirmRestores gid live) = some t) :
    Effect s (.confirmRestores gid live) t := by
  simp only [step, confirmRestores] at h
  split at h
  swap
  · cases h
  rename_i g m hfind hmfind
  obtain ⟨hg, rfl⟩ := found hfind
  obtain ⟨hm, rfl⟩ := found hmfind
  split at h
  swap
  · cases h
  rename_i hconfirms
  cases h
  unfold confirmsRestore at hconfirms
  split at hconfirms
  · cases hconfirms
  simp only [Bool.and_eq_true, decide_eq_true_eq] at hconfirms
  exact Effect.set { g with
      state := .restored, restoredAt := some s.now, visibleAt := none, rawSource := none
      attachments := [] } hg rfl
    (.restored m rfl hconfirms.1.1.1.1.1.1 hm hconfirms.1.1.2 hconfirms.2 rfl)
    (Nat.le_refl _) rfl rfl rfl fun _ hb => .inl hb

theorem failStaleRestores_effect {timeout : ℕ}
    (h : step s (.failStaleRestores gid timeout) = some t) :
    Effect s (.failStaleRestores gid timeout) t := by
  simp only [step, failStaleRestores] at h
  split at h
  · cases h
  rename_i g hfind
  obtain ⟨hg, rfl⟩ := found hfind
  split at h
  swap
  · cases h
  rename_i hcond
  cases h
  exact Effect.set { g with state := .glaciered, lastError := some _ } hg rfl
    (.failed _ hcond.1 hcond.2.1 rfl) (Nat.le_refl _) rfl rfl rfl fun _ hb => .inl hb

end Operations

/-! ## PostIMAP and the server -/

section Mirror

variable {s t : State P}

theorem arrive_mem (h : arrive s m = some t) :
    (∀ m' ∈ t.messages.rows, m' ∈ s.messages.rows ∨ m'.id = s.nextId) ∧
    (∀ m' ∈ s.messages.rows, m' ∈ t.messages.rows) ∧
    { m with id := s.nextId, expungedAt := none } ∈ t.messages.rows ∧
    s.nextId < t.nextId ∧ t.glacier = s.glacier ∧
    t.pendingDuplicates = s.pendingDuplicates ∧ t.held = s.held := by
  unfold arrive at h
  split at h
  · rename_i hfresh
    cases h
    refine ⟨?_, ?_, ?_, Nat.lt_succ_self _, rfl, rfl, rfl⟩
    · intro m' hm'
      rcases (KeyedTable.mem_insert hfresh).1 hm' with hm' | rfl
      · exact .inl hm'
      · exact .inr rfl
    · exact fun m' hm' => (KeyedTable.mem_insert hfresh).2 (.inl hm')
    · exact (KeyedTable.mem_insert hfresh).2 (.inr rfl)
  · cases h

theorem arrive_effect (h : step s (.arrive m) = some t) :
    Effect s (.arrive m) t := by
  obtain ⟨hback, hforth, -, hnext, hg, hp, hh⟩ := arrive_mem h
  refine ⟨Nat.le_of_lt hnext, fun g' hg' => .inl ⟨g', hg ▸ hg', rfl, .kept rfl⟩,
    fun g' hg' => .inl ⟨g', hg.symm ▸ hg', rfl, .kept rfl⟩, ?_,
    fun m' hm' => .inl ⟨m', hforth m' hm', rfl, .kept rfl⟩, fun p hp' => .inl (hp ▸ hp'),
    fun b hb => .inl (hh ▸ hb)⟩
  intro m' hm'
  rcases hback m' hm' with hm' | hid
  · exact .inl ⟨m', hm', rfl, .kept rfl⟩
  · exact .inr ⟨hid, hnext⟩

theorem resync_effect (h : step s (.resync mid) = some t) :
    Effect s (.resync mid) t := by
  simp only [step, resync] at h
  split at h
  · cases h
  rename_i m hfind
  obtain ⟨hm, rfl⟩ := found hfind
  obtain ⟨hback, hforth, hsame, hnext, hg, hp, hh⟩ := arrive_mem h
  refine Effect.remove (m := m) (.inr (.inr ⟨rfl, _, _, hsame⟩)) (Nat.le_of_lt hnext) hg ?_ ?_ hm hp hh
  · intro m' hm'
    rcases hback m' hm' with hm' | hid
    · exact .inl (KeyedTable.mem_erase.1 hm').1
    · exact .inr ⟨hid, hnext⟩
  · exact fun r hr hne => hforth r (KeyedTable.mem_erase.2 ⟨hr, hne⟩)

theorem erase_effect {l : Label} (hm : m ∈ s.messages.rows)
    (hgone : Gone s { s with messages := s.messages.erase m.id } l m) :
    Effect s l { s with messages := s.messages.erase m.id } :=
  Effect.remove hgone (Nat.le_refl _) rfl (fun _ hr => .inl (KeyedTable.mem_erase.1 hr).1)
    (fun _ hr hne => KeyedTable.mem_erase.2 ⟨hr, hne⟩) hm rfl rfl

theorem expungeReverts_effect (h : step s (.expungeReverts mid) = some t) :
    Effect s (.expungeReverts mid) t := by
  simp only [step] at h
  split at h
  swap
  · cases h
  cases h
  cases hfind : s.messages.find? mid with
  | some m =>
    obtain ⟨hm, rfl⟩ := found hfind
    exact Effect.mark hm (.reverted rfl) (Nat.le_refl _) rfl
      (fun g' hg' => ⟨g', hg', rfl, .kept rfl⟩) (fun g' hg' => ⟨g', hg', rfl, .kept rfl⟩)
      (fun _ hp => hp) rfl
  | none =>
    have hnone := KeyedTable.find?_eq_none_iff.1 hfind
    have hsame : ∀ m', m' ∈ (s.messages.update (fun m => decide (m.id = mid))
        (fun m => { m with expungedAt := none }) (fun _ => rfl)).rows ↔ m' ∈ s.messages.rows := by
      intro m'
      rw [KeyedTable.mem_update]
      constructor
      · rintro ⟨r, hr, rfl⟩
        rw [if_neg (by simpa using hnone r hr)]
        exact hr
      · intro hm'
        exact ⟨m', hm', by rw [if_neg (by simpa using hnone m' hm')]⟩
    exact ⟨Nat.le_refl _, fun g' hg' => .inl ⟨g', hg', rfl, .kept rfl⟩,
      fun g' hg' => .inl ⟨g', hg', rfl, .kept rfl⟩,
      fun m' hm' => .inl ⟨m', (hsame m').1 hm', rfl, .kept rfl⟩,
      fun m' hm' => .inl ⟨m', (hsame m').2 hm', rfl, .kept rfl⟩, fun _ hp => .inl hp,
      fun _ hb => .inl hb⟩

/-- **Every step has an effect of this shape.** -/
theorem step_effect {l : Label} (h : step s l = some t) : Effect s l t := by
  cases l with
  | copyMessage mid => exact copyMessage_effect h
  | verifyMessage gid => exact verifyMessage_effect h
  | expungeMessage gid => exact expungeMessage_effect h
  | resolveDuplicate mid gid => exact resolveDuplicate_effect h
  | confirmOrWithdrawRemoving gid grace => exact confirmOrWithdraw_effect h
  | reresolveOrigins gid pick => exact reresolveOrigins_effect h
  | startRestore gid target => exact startRestore_effect h
  | confirmRestores gid live => exact confirmRestores_effect h
  | failStaleRestores gid timeout => exact failStaleRestores_effect h
  | arrive m => exact arrive_effect h
  | resync mid => exact resync_effect h
  | expungeReverts mid => exact expungeReverts_effect h
  | tick elapsed | configure config | appendLands oid | appendDies oid =>
    cases h
    exact .same (Nat.le_refl _) rfl rfl (fun _ hp => hp) rfl
  | expungeFails mid =>
    simp only [step] at h
    split at h
    · cases h
    · split at h
      · cases h
      · cases h
        exact .same (Nat.le_refl _) rfl rfl (fun _ hp => hp) rfl
  | expungeLands mid =>
    simp only [step] at h
    split at h
    · cases h
    · rename_i m hfind
      obtain ⟨hm, rfl⟩ := found hfind
      split at h
      · cases h
      · rename_i hlive
        cases h
        exact erase_effect hm (.inl ⟨by simpa using hlive, rfl⟩)
  | clientExpunges mid =>
    cases h
    cases hfind : s.messages.find? mid with
    | some m =>
      obtain ⟨hm, rfl⟩ := found hfind
      exact erase_effect hm (.inr (.inl rfl))
    | none =>
      have hnone := KeyedTable.find?_eq_none_iff.1 hfind
      exact ⟨Nat.le_refl _, fun g' hg' => .inl ⟨g', hg', rfl, .kept rfl⟩,
        fun g' hg' => .inl ⟨g', hg', rfl, .kept rfl⟩,
        fun m' hm' => .inl ⟨m', (KeyedTable.mem_erase.1 hm').1, rfl, .kept rfl⟩,
        fun m' hm' => .inl ⟨m', KeyedTable.mem_erase.2 ⟨hm', hnone m' hm'⟩, rfl, .kept rfl⟩,
        fun _ hp => .inl hp, fun _ hb => .inl hb⟩

end Mirror

end MailVerdict.Analysis.Glacier
