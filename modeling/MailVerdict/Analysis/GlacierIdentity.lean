import MailVerdict.Analysis.GlacierSteps

/-!
# The live row an expunge removes

Bytes are compared when a copy is verified and when a duplicate is reported; the
row that is expunged is found later by account, Message-ID header, size and date.
Between the two, ids cannot drift, for no id is used twice, so the comparison still
holds of the row named, except where `reresolve_origins` re-points a verified copy to
a look-alike with other bytes, or a refill puts other bytes into a row whose
duplicate is still to be resolved. `KeepsIdentity` excludes the two, and every run
without them expunges only what the glacier holds.
-/

namespace MailVerdict.Analysis.Glacier

open MailVerdict.Computation Model.Glacier

variable {P : Platform}

/-! ## Ids and stored bytes -/

/-- A row holds bytes and their digest, or is the tombstone of a restore. -/
def RowBytes (g : GlacierMessage P) : Prop :=
  (g.state = .restored ∧ g.rawSource = none ∧ g.restoredAt.isSome = true) ∨
    g.state ≠ .restored ∧ g.restoredAt = none ∧
      ∃ b, g.rawSource = some b ∧ g.contentSha256 = some (P.sha256 b)

structure WellFormed (s : State P) : Prop where
  messageIds : ∀ m ∈ s.messages.rows, m.id < s.nextId
  glacierIds : ∀ g ∈ s.glacier.rows, g.id < s.nextId
  originIds : ∀ g ∈ s.glacier.rows, ∀ o ∈ g.originMessageId, o < s.nextId
  pendingIds : ∀ p ∈ s.pendingDuplicates, p.1 < s.nextId ∧ p.2 < s.nextId
  bytes : ∀ g ∈ s.glacier.rows, RowBytes g

theorem wellFormed_start (c : Config) : WellFormed (start P c) := by
  constructor <;> simp [start, KeyedTable.empty]

theorem RowBytes.of_not_tombstone {g : GlacierMessage P} (h : RowBytes g)
    (hnot : g.restoredAt = none) : ∃ b, g.rawSource = some b ∧ g.contentSha256 = some (P.sha256 b) := by
  rcases h with ⟨-, -, hsome⟩ | ⟨-, -, hb⟩
  · simp [hnot] at hsome
  · exact hb

theorem RowBytes.of_state {g : GlacierMessage P} (h : RowBytes g) (hst : g.state ≠ .restored) :
    g.restoredAt = none ∧ ∃ b, g.rawSource = some b ∧ g.contentSha256 = some (P.sha256 b) := by
  rcases h with ⟨hres, -⟩ | ⟨-, hnot, hb⟩
  · exact absurd hres hst
  · exact ⟨hnot, hb⟩

theorem RowBytes.of_tombstone {g : GlacierMessage P} (h : RowBytes g)
    (hsome : g.restoredAt.isSome = true) : g.rawSource = none := by
  rcases h with ⟨-, hraw, -⟩ | ⟨-, hnot, -⟩
  · exact hraw
  · simp [hnot] at hsome

theorem rowBytes_copied {c : Config} {m : Message} (helig : eligible c m = true)
    {g : GlacierMessage P} (hst : g.state = .copied) (hnot : g.restoredAt = none)
    (hraw : g.rawSource = m.rawSource) (hsha : g.contentSha256 = m.rawSource.map P.sha256) :
    RowBytes g := by
  obtain ⟨b, hb⟩ := Option.isSome_iff_exists.1 (eligible_rawSource helig)
  refine .inr ⟨by simp [hst], hnot, b, by rw [hraw, hb], ?_⟩
  rw [hsha, hb]
  rfl

theorem RowMoves.rowBytes {s : State P} {l : Label} {g g' : GlacierMessage P}
    (hm : RowMoves s l g g') (h : RowBytes g) : RowBytes g' := by
  have keep : g.state ≠ .restored → g'.state ≠ .restored → g'.restoredAt = g.restoredAt →
      g'.rawSource = g.rawSource → g'.contentSha256 = g.contentSha256 → RowBytes g' := by
    intro hst hst' hat hraw hsha
    obtain ⟨hnot, b, hb, hc⟩ := h.of_state hst
    exact .inr ⟨hst', hat.trans hnot, b, hraw.trans hb, hsha.trans hc⟩
  cases hm with
  | kept he => exact he ▸ h
  | verified hold hthere he | removing hl hold he | confirmed hold he
  | finalised hl hold hgone hnone he | restoring id hold he | failed reason hold hnot he =>
    exact keep (by simp [hold]) (by simp [he]) (by rw [he]) (by rw [he]) (by rw [he])
  | repointed m hl hold hmem hlike he =>
    exact keep (by simp [hold]) (by simp [he, hold]) (by rw [he]) (by rw [he]) (by rw [he])
  | restored m hl hold hmem hlive hbytes he => exact .inl (by simp [he])
  | refilled m folderId hl hmem helig hfolder htomb hacc hkey he =>
    exact rowBytes_copied helig (by rw [he]; rfl) (by rw [he]; rfl) (by rw [he]; rfl)
      (by rw [he]; rfl)

theorem RowMoves.origin {s : State P} {l : Label} {g g' : GlacierMessage P}
    (hm : RowMoves s l g g') :
    ∀ o ∈ g'.originMessageId, o ∈ g.originMessageId ∨ ∃ m ∈ s.messages.rows, m.id = o := by
  cases hm with
  | kept he => exact fun o ho => .inl (he ▸ ho)
  | verified hold hthere he
  | removing hl hold he | confirmed hold he
  | restoring id hold he
  | restored m hl hold hmem hlive hbytes he
  | failed reason hold hnot he => exact fun o ho => .inl (by rw [he] at ho; exact ho)
  | finalised hl hold hgone hnone he =>
    intro o ho
    simp [he] at ho
  | repointed m hl hold hmem hlike he =>
    intro o ho
    rw [he] at ho
    exact .inr ⟨m, hmem, by simpa using ho⟩
  | refilled m folderId hl hmem helig hfolder htomb hacc hkey he =>
    intro o ho
    rw [he] at ho
    exact .inr ⟨m, hmem, by simpa [refilledRow, copiedRow] using ho⟩

/-- **Every step keeps ids fresh and rows with their bytes.** -/
theorem wellFormed_step {s t : State P} {l : Label} (h : WellFormed s) (he : Effect s l t) :
    WellFormed t := by
  have hlt : ∀ {i : Uuid}, i < s.nextId → i < t.nextId :=
    fun hi => Nat.lt_of_lt_of_le hi he.nextId_le
  refine ⟨?_, ?_, ?_, ?_, ?_⟩
  · intro m' hm'
    rcases he.messagesBack m' hm' with ⟨m, hm, hid, -⟩ | ⟨hid, hnext⟩
    · exact hid ▸ hlt (h.messageIds m hm)
    · exact hid ▸ hnext
  · intro g' hg'
    rcases he.glacierBack g' hg' with ⟨g, hg, hid, -⟩ | ⟨m, hm, folderId, -, -, hrow, hnext⟩
    · exact hid ▸ hlt (h.glacierIds g hg)
    · rw [hrow]
      exact hnext
  · intro g' hg' o ho
    rcases he.glacierBack g' hg' with ⟨g, hg, -, hmove⟩ | ⟨m, hm, folderId, -, -, hrow, -⟩
    · rcases hmove.origin o ho with ho | ⟨m, hm, rfl⟩
      · exact hlt (h.originIds g hg o ho)
      · exact hlt (h.messageIds m hm)
    · rw [hrow] at ho
      simp only [copiedRow, Option.mem_def, Option.some.injEq] at ho
      exact ho ▸ hlt (h.messageIds m hm)
  · intro p hp
    rcases he.pending p hp with hp | ⟨-, -, m, hm, g, hg, rfl, -⟩
    · exact ⟨hlt (h.pendingIds p hp).1, hlt (h.pendingIds p hp).2⟩
    · exact ⟨hlt (h.messageIds m hm), hlt (h.glacierIds g hg)⟩
  · intro g' hg'
    rcases he.glacierBack g' hg' with ⟨g, hg, -, hmove⟩ | ⟨m, hm, folderId, -, helig, hrow, -⟩
    · exact hmove.rowBytes (h.bytes g hg)
    · rw [hrow]
      exact rowBytes_copied helig rfl rfl rfl rfl

/-! ## The identity a copy was verified under -/

/-- The condition on one step: a copy is not re-pointed to other bytes, and a
tombstone is not refilled with other bytes than those of a look-alike whose
duplicate is still to be resolved against it. -/
def KeepsIdentity (s : State P) : Label → Prop
  | .reresolveOrigins glacierId (some found) =>
    ∀ g ∈ s.glacier.rows, g.id = glacierId → ∀ m ∈ s.messages.rows, m.id = found →
      m.rawSource = g.rawSource
  | .copyMessage messageId =>
    ∀ m ∈ s.messages.rows, m.id = messageId → eligible s.config m = true →
      ∀ g ∈ s.glacier.rows, g.restoredAt.isSome = true → g.accountId = m.accountId →
        g.msgKey = m.msgKey P → ∀ p ∈ s.pendingDuplicates, p.2 = g.id →
          ∀ d ∈ s.messages.rows, d.id = p.1 →
            d.identityMatches m.accountId m.messageId m.sizeBytes m.receivedAt = true →
              d.rawSource = m.rawSource
  | _ => True

/-- The origin of a copy not yet confirmed gone has the copy's bytes, and so has
the message of a duplicate still to be resolved. -/
structure Identity (s : State P) : Prop where
  origin : ∀ g ∈ s.glacier.rows,
    (g.state = .copied ∨ g.state = .verified ∨ g.state = .removing) →
      ∀ m ∈ s.messages.rows, g.originMessageId = some m.id → m.rawSource = g.rawSource
  pending : ∀ p ∈ s.pendingDuplicates, ∀ m ∈ s.messages.rows, m.id = p.1 →
    ∀ g ∈ s.glacier.rows, g.id = p.2 → g.restoredAt = none → g.admits m = true →
      m.rawSource = g.rawSource

theorem identity_start (c : Config) : Identity (start P c) := by
  constructor <;> simp [start, KeyedTable.empty]

theorem MessageMoves.same {s : State P} {l : Label} {m m' : Message}
    (h : MessageMoves s l m m') : m'.rawSource = m.rawSource ∧
      ∀ (a : Uuid) (i : Option String) (n : Option ℕ) (r : Option Time),
        m'.identityMatches a i n r = m.identityMatches a i n r := by
  cases h with
  | kept he => exact ⟨by rw [he], fun _ _ _ _ => by rw [he]⟩
  | expunged g hg hl hlive hadmits he
  | reverted he => exact ⟨by rw [he], fun _ _ _ _ => by rw [he]; rfl⟩

theorem Effect.old_message {s t : State P} {l : Label} (he : Effect s l t) {m' : Message}
    (hm' : m' ∈ t.messages.rows) (hid : m'.id < s.nextId) :
    ∃ m ∈ s.messages.rows, m'.id = m.id ∧ MessageMoves s l m m' := by
  rcases he.messagesBack m' hm' with h | ⟨hnew, -⟩
  · exact h
  · exact absurd hid (by rw [hnew]; exact Nat.lt_irrefl _)

theorem origin_of_copy {s t : State P} {l : Label} (hw : WellFormed s) (he : Effect s l t)
    {m : Message} (hm : m ∈ s.messages.rows) {m' : Message} (hm' : m' ∈ t.messages.rows)
    (hid : m'.id = m.id) : m'.rawSource = m.rawSource := by
  obtain ⟨m₀, hm₀, hid₀, hmove⟩ := he.old_message hm' (hid ▸ hw.messageIds m hm)
  rw [hmove.same.1, s.messages.eq_of_key_eq hm₀ hm (hid₀.symm.trans hid)]

/-- **The step lemma**: a step that meets the condition keeps the identities. -/
theorem identity_step (hinj : Function.Injective P.sha256) {s t : State P} {l : Label}
    (hw : WellFormed s) (h : Identity s) (hk : KeepsIdentity s l) (he : Effect s l t) :
    Identity t := by
  constructor
  · intro g' hg' hstate m' hm' horigin
    rcases he.glacierBack g' hg' with ⟨g, hg, -, hmove⟩ | ⟨m, hm, folderId, -, -, hrow, -⟩
    · -- the origin is unchanged, so it is an old message
      have same : g'.originMessageId = g.originMessageId → g'.rawSource = g.rawSource →
          (g.state = .copied ∨ g.state = .verified ∨ g.state = .removing) →
          m'.rawSource = g'.rawSource := by
        intro ho hraw hst
        have hlt : m'.id < s.nextId := hw.originIds g hg m'.id (by rw [← ho]; exact horigin)
        obtain ⟨m, hm, hid, hmoves⟩ := he.old_message hm' hlt
        rw [hraw, hmoves.same.1]
        exact h.origin g hg hst m hm (by rw [← ho, horigin, hid])
      cases hmove with
      | kept heq => exact same (by rw [heq]) (by rw [heq]) (heq ▸ hstate)
      | verified hold hthere heq => exact same (by rw [heq]) (by rw [heq]) (.inl hold)
      | removing hl hold heq => exact same (by rw [heq]) (by rw [heq]) (.inr (.inl hold))
      | confirmed hold heq => simp [heq] at hstate
      | finalised hl hold hgone hnone heq => simp [heq] at hstate
      | restoring id hold heq => simp [heq] at hstate
      | restored m hl hold hmem hlive hbytes heq => simp [heq] at hstate
      | failed reason hold hnot heq => simp [heq] at hstate
      | repointed m hl hold hmem hlike heq =>
        subst hl
        have hraw : g'.rawSource = g.rawSource := by rw [heq]
        have hid : m'.id = m.id := by
          rw [heq] at horigin
          exact (Option.some.inj horigin).symm
        rw [hraw, origin_of_copy hw he hmem hm' hid]
        exact hk g hg rfl m hmem rfl
      | refilled m folderId hl hmem helig hfolder htomb hacc hkey heq =>
        have hraw : g'.rawSource = m.rawSource := by rw [heq]; rfl
        have hid : m'.id = m.id := by
          rw [heq] at horigin
          exact (Option.some.inj horigin).symm
        rw [hraw, origin_of_copy hw he hmem hm' hid]
    · have hid : m'.id = m.id := by
        rw [hrow] at horigin
        exact (Option.some.inj horigin).symm
      rw [hrow, origin_of_copy hw he hm hm' hid]
      rfl
  · intro p hp m' hm' hmid g' hg' hgid hnot hadmits
    rcases he.pending p hp with hp | ⟨hglacier, hmessages, m, hm, g, hg, rfl, hgnot, -, hsame⟩
    · obtain ⟨hlt₁, hlt₂⟩ := hw.pendingIds p hp
      obtain ⟨m, hm, hid, hmoves⟩ := he.old_message hm' (hmid ▸ hlt₁)
      obtain ⟨hraw, henv⟩ := hmoves.same
      rcases he.glacierBack g' hg' with ⟨g, hg, hgg, hmove⟩ | ⟨m₀, -, folderId, -, -, hrow, -⟩
      · have same : g'.restoredAt = g.restoredAt → g'.rawSource = g.rawSource →
            (∀ m, g'.admits m = g.admits m) → m'.rawSource = g'.rawSource := by
          intro hat hgraw had
          rw [hgraw, hraw]
          refine h.pending p hp m hm (hid.symm.trans hmid) g hg (hgg.symm.trans hgid)
            (hat ▸ hnot) ?_
          rw [had] at hadmits
          unfold GlacierMessage.admits at hadmits ⊢
          rw [← henv]
          exact hadmits
        cases hmove with
        | kept heq => exact same (by rw [heq]) (by rw [heq]) fun _ => by rw [heq]
        | verified hold hthere heq | repointed m hl hold hmem hlike heq
        | finalised hl hold hgone hnone heq | failed reason hold hno heq =>
          exact same (by rw [heq]) (by rw [heq]) fun _ => by rw [heq]; rfl
        | removing hl hold heq
        | confirmed hold heq
        | restoring id hold heq => exact same (by rw [heq]) (by rw [heq]) fun _ => by rw [heq]; rfl
        | restored m hl hold hmem hlive hbytes heq => simp [heq] at hnot
        | refilled m₂ folderId hl hmem helig hfolder htomb hacc hkey heq =>
          subst hl
          have hraw₂ : g'.rawSource = m₂.rawSource := by rw [heq]; rfl
          rw [hraw, hraw₂]
          refine hk m₂ hmem rfl helig g hg htomb hacc hkey p hp (hgid.symm.trans hgg) m hm
            (hid.symm.trans hmid) ?_
          rw [← henv]
          rw [heq] at hadmits
          simpa [GlacierMessage.admits, refilledRow, copiedRow, hacc] using hadmits
      · have hnew : g'.id = s.nextId := by
          rw [hrow]
          rfl
        exact absurd hlt₂ (by rw [← hgid, hnew]; exact Nat.lt_irrefl _)
    · rw [hmessages] at hm'
      rw [hglacier] at hg'
      rw [s.messages.eq_of_key_eq hm' hm hmid, s.glacier.eq_of_key_eq hg' hg hgid]
      obtain ⟨b, hb, hc⟩ := (hw.bytes g hg).of_not_tombstone hgnot
      rw [hc] at hsame
      obtain ⟨b', hb', hsha⟩ := Option.map_eq_some_iff.1 hsame
      rw [hb, hb', hinj hsha]

/-- **The run lemma**. -/
theorem identity_reachable (hinj : Function.Injective P.sha256) {s : State P}
    {Q : State P → Label → Prop} (hQ : ∀ s l, Q s l → KeepsIdentity s l)
    (h : (system P).Reachable Q s) : WellFormed s ∧ Identity s := by
  apply h.invariant (I := fun s => WellFormed s ∧ Identity s)
  · rintro s ⟨c, rfl⟩
    exact ⟨wellFormed_start c, identity_start c⟩
  · rintro s l t ⟨hw, hi⟩ hk hst
    have he := step_effect hst
    exact ⟨wellFormed_step hw he, identity_step hinj hw hi (hQ s l hk) he⟩

/-! ## What is expunged -/

def favoured : Label → Option Uuid
  | .expungeMessage glacierId | .resolveDuplicate _ glacierId => some glacierId
  | _ => none

/-- A live message that an expunge of the glacier marks has the very bytes of the
row it is removed in favour of. -/
def ExpungesIdentical (s : State P) (l : Label) (t : State P) : Prop :=
  ∀ glacierId ∈ favoured l, ∀ m ∈ s.messages.rows, m.live = true →
    ∀ m' ∈ t.messages.rows, m'.id = m.id → m'.live = false →
      ∃ g ∈ s.glacier.rows, g.id = glacierId ∧ ∃ b, g.rawSource = some b ∧ m.rawSource = some b

theorem bytes_of_expunged {s : State P} {l : Label} (hw : WellFormed s) (hi : Identity s)
    {m : Message} (hm : m ∈ s.messages.rows) {g : GlacierMessage P} (hg : g ∈ s.glacier.rows)
    (hl : l = .expungeMessage g.id ∧ g.state = .verified ∧ g.originMessageId = some m.id ∨
      l = .resolveDuplicate m.id g.id ∧ (m.id, g.id) ∈ s.pendingDuplicates ∧
        (g.state = .verified ∨ g.state = .removing ∨ g.state = .glaciered))
    (hadmits : g.admits m = true) : ∃ b, g.rawSource = some b ∧ m.rawSource = some b := by
  have hst : g.state ≠ .restored := by
    rcases hl with ⟨-, hst, -⟩ | ⟨-, -, hst | hst | hst⟩ <;> simp [hst]
  obtain ⟨hnot, b, hb, -⟩ := (hw.bytes g hg).of_state hst
  refine ⟨b, hb, ?_⟩
  rw [← hb]
  rcases hl with ⟨-, hverified, horigin⟩ | ⟨-, hpending, -⟩
  · exact hi.origin g hg (.inr (.inl hverified)) m hm horigin
  · exact hi.pending _ hpending m hm rfl g hg rfl hnot hadmits

/-- **Only identical bytes are expunged** in every run that never re-points a copy to other
bytes, and never refills a tombstone with other bytes under a duplicate still to be resolved. -/
theorem expunges_identical_while_identity_kept (P : Platform)
    (hinj : Function.Injective P.sha256) (s : State P)
    (hs : (system P).Reachable KeepsIdentity s) :
    ∀ l t, (system P).step s l = some t → ExpungesIdentical s l t := by
  intro l t hst glacierId hfav m hm hlive m' hm' hid hdead
  obtain ⟨hw, hi⟩ := identity_reachable hinj (fun _ _ h => h) hs
  have he : Effect s l t := step_effect hst
  obtain ⟨m₀, hm₀, hid₀, hmove⟩ := he.old_message hm' (hid ▸ hw.messageIds m hm)
  obtain rfl := s.messages.eq_of_key_eq hm₀ hm (hid₀.symm.trans hid)
  cases hmove with
  | kept heq => simp [heq, hlive] at hdead
  | reverted heq => simp [heq, Message.live] at hdead
  | expunged g hg hl hlive' hadmits heq =>
    have hgid : g.id = glacierId := by
      rcases hl with ⟨rfl, -⟩ | ⟨rfl, -⟩ <;> simpa [favoured] using hfav
    exact ⟨g, hg, hgid, bytes_of_expunged hw hi hm hg hl hadmits⟩

/-! ## Runs -/

def plainPlatform : Platform where
  Digest := Bytes
  decEq := inferInstance
  sha256 := id
  hexdigest := id
  isoformat := toString

/-- Every folder synced, every account active with the glacier folder 99. -/
def openConfig : Config where
  initialSyncDone := fun _ => true
  folderDeleted := fun _ => false
  isActive := fun _ => true
  glacierFolderId := fun _ => some 99
  postimapInfo := some ⟨"1.0", true⟩
  confirmGraceSeconds := 5

/-- A message of one byte. The envelope does not depend on the byte. -/
def oneByte (b : UInt8) : Message where
  id := 0
  accountId := 7
  folderId := 1
  messageId := some "<a@b>"
  fromAddr := none
  subject := none
  receivedAt := some 3
  sizeBytes := some 1
  imapUid := some 1
  rawSource := some [b]
  isTruncated := false
  isDraft := false
  attachments := []
  expungedAt := none

def resyncedMove : List Label :=
  [.arrive (oneByte 1), .copyMessage 0, .verifyMessage 1, .resync 0, .expungeMessage 1,
    .reresolveOrigins 1 (some 2)]

instance (s : State P) : (l : Label) → Decidable (KeepsIdentity s l)
  | .reresolveOrigins _ (some _) => inferInstanceAs (Decidable (∀ g ∈ s.glacier.rows, _ → _))
  | .copyMessage _ => inferInstanceAs (Decidable (∀ m ∈ s.messages.rows, _ → _))
  | .reresolveOrigins _ none | .tick _ | .configure _ | .verifyMessage _ | .expungeMessage _
  | .resolveDuplicate _ _ | .confirmOrWithdrawRemoving _ _ | .startRestore _ _
  | .confirmRestores _ _ | .failStaleRestores _ _ | .arrive _ | .expungeLands _ | .expungeFails _
  | .expungeReverts _ | .resync _ | .appendLands _ | .appendDies _ | .clientExpunges _ =>
    inferInstanceAs (Decidable True)

theorem expunges_identical_after_resync :
    ∃ s, (system plainPlatform).exec (start plainPlatform openConfig) resyncedMove = some s ∧
      ∀ l t, (system plainPlatform).step s l = some t → ExpungesIdentical s l t :=
  ⟨_, rfl, expunges_identical_while_identity_kept plainPlatform Function.injective_id _
    (TransitionSystem.reachable_of_exec resyncedMove ⟨openConfig, rfl⟩ (by decide) rfl)⟩

/-- Two messages with one header, size and date: the copy of the second is
re-pointed to the first by a resync of the second. -/
def lookAlikeMove : List Label :=
  [.arrive (oneByte 1), .arrive (oneByte 2), .copyMessage 1, .verifyMessage 2, .resync 1,
    .reresolveOrigins 2 (some 0)]

/-- The expunge then marks the first message in favour of the copy of the second. -/
theorem look_alike_expunged :
    ∃ s t, (system plainPlatform).exec (start plainPlatform openConfig) lookAlikeMove = some s ∧
      (system plainPlatform).Reachable TransitionSystem.anyStep s ∧
      (system plainPlatform).step s (.expungeMessage 2) = some t ∧
      ¬ ExpungesIdentical s (.expungeMessage 2) t := by
  refine ⟨_, _, rfl, TransitionSystem.reachable_of_exec_any lookAlikeMove ⟨openConfig, rfl⟩ rfl, rfl,
    ?_⟩
  intro h
  obtain ⟨g, hg, -, b, hgb, hmb⟩ := h 2 rfl (oneByte 1) (by decide) rfl
    { oneByte 1 with expungedAt := some 0 } (by decide) rfl rfl
  have hbytes : g.rawSource = some [2] := by
    rw [List.mem_singleton.1 hg]
    rfl
  rw [hbytes] at hgb
  have : (oneByte 1).rawSource = some [1] := rfl
  rw [this, ← hgb] at hmb
  simp at hmb

end MailVerdict.Analysis.Glacier
