import MailVerdict.Analysis.GlacierIdentity

/-!
# What the glacier once held still exists

Bytes are safe while a glacier row stores them or a live message has them: a
message marked for expunge is not counted on, since its expunge may land at any
moment. Each step that gives one of the two up has the other: an expunge is asked
for in favour of a row with the same bytes, a withdrawal finds the origin live
again, a restore is confirmed by a live row with the same digest. So bytes stay safe
along every run that keeps the identities of `GlacierIdentity`.
-/

namespace MailVerdict.Analysis.Glacier

open MailVerdict.Computation Model.Glacier

variable {P : Platform}

def Safe (s : State P) (b : Bytes) : Prop :=
  (∃ g ∈ s.glacier.rows, g.rawSource = some b) ∨
    ∃ m ∈ s.messages.rows, m.live = true ∧ m.rawSource = some b

/-- The bytes exist as a live row, as a server copy whose expunge has not landed, or
in the glacier. -/
def Survives (s : State P) (b : Bytes) : Prop :=
  (∃ m ∈ s.messages.rows, m.live = true ∧ m.rawSource = some b) ∨
    (∃ m ∈ s.messages.rows, m.live = false ∧ m.rawSource = some b) ∨
      ∃ g ∈ s.glacier.rows, g.rawSource = some b

def NothingLost (s : State P) : Prop := ∀ b ∈ s.held, Survives s b

theorem Safe.survives {s : State P} {b : Bytes} (h : Safe s b) : Survives s b := by
  rcases h with h | h
  · exact .inr (.inr h)
  · exact .inl h

/-- The steps a message's owner does not make on the server: all but a client's own
expunge. -/
def ByService (l : Label) : Prop := ∀ messageId, l ≠ .clientExpunges messageId

instance : (l : Label) → Decidable (ByService l)
  | .clientExpunges messageId => isFalse fun h => h messageId rfl
  | .tick _ | .configure _ | .copyMessage _ | .verifyMessage _ | .expungeMessage _
  | .resolveDuplicate _ _ | .confirmOrWithdrawRemoving _ _ | .reresolveOrigins _ _
  | .startRestore _ _ | .confirmRestores _ _ | .failStaleRestores _ _ | .arrive _
  | .expungeLands _ | .expungeFails _ | .expungeReverts _ | .resync _ | .appendLands _
  | .appendDies _ => isTrue fun _ h => by cases h

theorem RowMoves.rawSource_or_live (hinj : Function.Injective P.sha256) {s : State P} {l : Label}
    {g g' : GlacierMessage P} (hm : RowMoves s l g g') (hb : RowBytes g) {b : Bytes}
    (hraw : g.rawSource = some b) :
    g'.rawSource = some b ∨ ∃ m ∈ s.messages.rows,
      l = .confirmRestores g.id m.id ∧ m.live = true ∧ m.rawSource = some b := by
  cases hm with
  | kept he => exact .inl (he ▸ hraw)
  | verified hold hthere he | removing hl hold he
  | confirmed hold he | repointed m hl hold hmem hlike he
  | finalised hl hold hgone hnone he | restoring id hold he
  | failed reason hold hnot he => exact .inl (by rw [he]; exact hraw)
  | refilled m folderId hl hmem helig hfolder htomb hacc hkey he =>
    rw [hb.of_tombstone htomb] at hraw
    cases hraw
  | restored m hl hold hmem hlive hbytes he =>
    obtain ⟨d, hd, hd'⟩ := sqlEq_iff.1 hbytes
    rw [hraw, Option.map_some, Option.some.injEq] at hd'
    obtain ⟨b', hb', hsha⟩ := Option.map_eq_some_iff.1 hd
    rw [← hd'] at hsha
    exact .inr ⟨m, hmem, hl, hlive, by rw [hb', hinj hsha]⟩

theorem live_or_stored {s t : State P} {l : Label} (hw : WellFormed s) (hi : Identity s)
    (hl : ByService l) (he : Effect s l t) {m : Message} (hm : m ∈ s.messages.rows)
    (hlive : m.live = true) {b : Bytes} (hraw : m.rawSource = some b) :
    (∃ m' ∈ t.messages.rows, m'.live = true ∧ m'.rawSource = some b) ∨
      ∃ g ∈ s.glacier.rows, favoured l = some g.id ∧ g.rawSource = some b := by
  rcases he.messagesForth m hm with ⟨m', hm', -, hmove⟩ | hgone
  · have hraw' : m'.rawSource = some b := hmove.same.1.trans hraw
    cases hmove with
    | kept heq => exact .inl ⟨m', hm', heq ▸ hlive, hraw'⟩
    | reverted heq => exact .inl ⟨m', hm', by simp [heq, Message.live], hraw'⟩
    | expunged g hg hstep hlive' hadmits heq =>
      obtain ⟨b', hb', hmb⟩ := bytes_of_expunged hw hi hm hg hstep hadmits
      rw [hraw, Option.some.injEq] at hmb
      refine .inr ⟨g, hg, ?_, by rw [hb', hmb]⟩
      rcases hstep with ⟨rfl, -⟩ | ⟨rfl, -⟩ <;> rfl
  · rcases hgone with ⟨hdead, -⟩ | hclient | ⟨-, id, uid, hback⟩
    · simp [hlive] at hdead
    · exact absurd hclient (hl m.id)
    · exact .inl ⟨_, hback, rfl, hraw⟩

/-- **The step lemma**: a step that keeps the identities keeps bytes safe. -/
theorem safe_step (hinj : Function.Injective P.sha256) {s t : State P} {l : Label}
    (hw : WellFormed s) (hi : Identity s) (hl : ByService l) (he : Effect s l t) {b : Bytes}
    (h : Safe s b) : Safe t b := by
  -- a row with the bytes: it keeps them, its origin is live, or a live row confirmed it
  have stored : ∀ g ∈ s.glacier.rows, g.rawSource = some b →
      Safe t b ∨ ∃ m ∈ s.messages.rows, favoured l = none ∧ m.live = true ∧
        m.rawSource = some b := by
    intro g hg hraw
    rcases he.glacierForth g hg with ⟨g', hg', -, hmove⟩ | ⟨hst, hintact, hmessages⟩
    · rcases hmove.rawSource_or_live hinj (hw.bytes g hg) hraw with hraw' | ⟨m, hm, hl', hlive, hmb⟩
      · exact .inl (.inl ⟨g', hg', hraw'⟩)
      · exact .inr ⟨m, hm, by rw [hl']; rfl, hlive, hmb⟩
    · unfold liveIntact at hintact
      split at hintact
      · cases hintact
      · rename_i m hfind
        obtain ⟨o, horigin, hfound⟩ := Option.bind_eq_some_iff.1 hfind
        obtain ⟨hm, rfl⟩ := found hfound
        rw [Bool.and_eq_true] at hintact
        have hmb := hi.origin g hg (.inr (.inr hst)) m hm horigin
        exact .inl (.inr ⟨m, hmessages ▸ hm, hintact.1, hmb.trans hraw⟩)
  rcases h with ⟨g, hg, hraw⟩ | ⟨m, hm, hlive, hraw⟩
  · rcases stored g hg hraw with h | ⟨m, hm, hfav, hlive, hmb⟩
    · exact h
    · rcases live_or_stored hw hi hl he hm hlive hmb with h | ⟨g', -, hfav', -⟩
      · exact .inr h
      · rw [hfav] at hfav'
        cases hfav'
  · rcases live_or_stored hw hi hl he hm hlive hraw with h | ⟨g, hg, hfav, hgb⟩
    · exact .inr h
    · rcases stored g hg hgb with h | ⟨m', -, hfav', -⟩
      · exact h
      · rw [hfav] at hfav'
        cases hfav'

/-- The condition of a run in which the glacier loses nothing. -/
def KeepsBytes (s : State P) (l : Label) : Prop := ByService l ∧ KeepsIdentity s l

instance (s : State P) (l : Label) : Decidable (KeepsBytes s l) :=
  inferInstanceAs (Decidable (_ ∧ _))

/-- **The run lemma**. -/
theorem safe_reachable (hinj : Function.Injective P.sha256) {s : State P}
    (h : (system P).Reachable KeepsBytes s) : ∀ b ∈ s.held, Safe s b := by
  apply h.invariant_of (I := fun s => WellFormed s ∧ Identity s) (J := fun s => ∀ b ∈ s.held, Safe s b)
  · exact fun s hs => identity_reachable hinj (fun _ _ h => h.2) hs
  · rintro s ⟨c, rfl⟩ b hb
    simp [start] at hb
  · rintro s l t ⟨hw, hi⟩ hsafe hk hst b hb
    have he := step_effect hst
    rcases he.held b hb with hb | ⟨g', hg', hraw⟩
    · exact safe_step hinj hw hi hk.1 he (hsafe b hb)
    · exact .inl ⟨g', hg', hraw⟩

/-- **The glacier loses nothing** in runs that never re-point a copy to other bytes, and never
refill a tombstone with other bytes under a duplicate still to be resolved. -/
theorem nothing_lost_while_identity_kept (P : Platform) (hinj : Function.Injective P.sha256)
    (s : State P) (hs : (system P).Reachable KeepsBytes s) : NothingLost s :=
  fun b hb => (safe_reachable hinj hs b hb).survives

/-- A message goes to the glacier and is restored; another with its header, size and
date takes the tombstone and is resynced. -/
def reusedTombstone : List Label :=
  [.arrive (oneByte 1), .copyMessage 0, .verifyMessage 1, .expungeMessage 1, .tick 6,
    .expungeLands 0, .confirmOrWithdrawRemoving 1 5, .startRestore 1 1, .appendLands 2,
    .arrive (oneByte 1), .confirmRestores 1 3, .arrive (oneByte 2), .copyMessage 4,
    .verifyMessage 1, .resync 4]

theorem nothing_lost_by_reused_tombstone :
    ∃ s, (system plainPlatform).exec (start plainPlatform openConfig) reusedTombstone = some s ∧
      NothingLost s :=
  ⟨_, rfl, nothing_lost_while_identity_kept plainPlatform Function.injective_id _
    (TransitionSystem.reachable_of_exec reusedTombstone ⟨openConfig, rfl⟩ (by decide) rfl)⟩

/-- The second message's copy is re-pointed to the restored first one, and the
expunge of that lands. -/
def restoredLost : List Label :=
  reusedTombstone ++ [.reresolveOrigins 1 (some 3), .expungeMessage 1, .expungeLands 3]

/-- The first message's bytes are then nowhere, though every step was the service's,
PostIMAP's or the server's. -/
theorem restored_message_lost :
    ∃ s, (system plainPlatform).exec (start plainPlatform openConfig) restoredLost = some s ∧
      (system plainPlatform).Reachable (fun _ l => ByService l) s ∧ ¬ NothingLost s := by
  refine ⟨_, rfl, TransitionSystem.reachable_of_exec restoredLost ⟨openConfig, rfl⟩
    (by decide) rfl, ?_⟩
  intro h
  have hlost := h [1] (by decide)
  revert hlost
  unfold Survives
  decide

end MailVerdict.Analysis.Glacier
