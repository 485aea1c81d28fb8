import MailVerdict.Analysis.GlacierIdentity

/-!
# A glaciered message stays visible

`visible_at` is set by the claim of `expunge_message` and by nothing else, and a
message leaves the mirror's listings when its row is expunged, whoever asked for it.
Three transitions lead to `glaciered`. Two start from rows that have `visible_at`;
the third, where `reresolve_origins` finds no look-alike and finalises a verified
row, does not set it. Two calls moving one message at a time reach it: the second
expunges the live row as a duplicate of the first's copy, and the first then finds
its origin gone. A copied row whose live message goes before the verify stays as it
is. So a copied or verified row has to keep a live message it can be expunged
through.
-/

namespace MailVerdict.Analysis.Glacier

open MailVerdict.Computation Model.Glacier

variable {P : Platform}

def NeverInvisible (s : State P) : Prop :=
  ∀ g ∈ s.glacier.rows, (g.state = .removing ∨ g.state = .glaciered ∨ g.state = .restoring) →
    g.visibleAt.isSome = true

/-- Two runs of the sweep's operations, at whatever look-alike its query returns, list
the row. -/
def ComesToLight (s : State P) (g : GlacierMessage P) : Prop :=
  (∃ m ∈ s.messages.rows, lookAlike g m = true) ∧
    ∀ m ∈ s.messages.rows, lookAlike g m = true → ∃ t,
      (system P).exec s [.reresolveOrigins g.id (some m.id), .expungeMessage g.id] = some t ∧
        ∃ g' ∈ t.glacier.rows, g'.id = g.id ∧ g'.visibleAt.isSome = true

def OrphansComeToLight (s : State P) : Prop :=
  ∀ g ∈ s.glacier.rows, (g.state = .copied ∨ g.state = .verified) → originGone s g = true →
    ComesToLight s g

/-- A copied or verified row whose live message is gone turns only into a listed
one. -/
def TurnsVisible (s t : State P) : Prop :=
  ∀ g ∈ s.glacier.rows, (g.state = .copied ∨ g.state = .verified) → originGone s g = true →
    ∀ g' ∈ t.glacier.rows, g'.id = g.id → g'.state ≠ g.state → g'.visibleAt.isSome = true

/-- The live message a row was copied from, or one a verified row can be pointed at. -/
def anchors (g : GlacierMessage P) (m : Message) : Bool :=
  m.live && (decide (g.originMessageId = some m.id) || decide (g.state = .verified) && g.admits m)

/-- The step does not take `m` from `g`: a resync brings it back under a new id, where a
verified row finds it; the expunge of `g` itself does not count. -/
def spares (s : State P) (g : GlacierMessage P) (m : Message) : Label → Bool
  | .clientExpunges messageId => decide (m.id ≠ messageId)
  | .resync messageId => decide (m.id ≠ messageId) || decide (g.state = .verified) && g.admits m
  | .expungeMessage glacierId => decide (glacierId = g.id) || s.glacier.rows.all fun r =>
      !(decide (r.id = glacierId) && decide (r.state = .verified) &&
        decide (r.originMessageId = some m.id) && r.admits m)
  | .resolveDuplicate messageId glacierId => decide (m.id ≠ messageId) ||
      s.glacier.rows.all fun r => !(decide (r.id = glacierId) &&
        (decide (r.state = .verified) || decide (r.state = .removing) ||
          decide (r.state = .glaciered)) && r.admits m)
  | _ => true

/-- The condition on one step: no copied or verified row loses the last live message it
can be expunged through. -/
def KeepsVisible (s : State P) (l : Label) : Prop :=
  ∀ g ∈ s.glacier.rows, (g.state = .copied ∨ g.state = .verified) →
    s.messages.rows.any (fun m => anchors g m && spares s g m l) = true

instance (s : State P) (l : Label) : Decidable (KeepsVisible s l) := by
  unfold KeepsVisible
  infer_instance

/-- Listed once the live message may be gone, and not before. -/
structure ShownWhenRemoved (g : GlacierMessage P) : Prop where
  shown : g.state = .removing ∨ g.state = .glaciered ∨ g.state = .restoring →
    g.visibleAt.isSome = true
  hidden : g.state = .copied ∨ g.state = .verified → g.visibleAt = none

/-- A copied or verified row has a live message it can be expunged through. -/
def Anchored (s : State P) : Prop :=
  ∀ g ∈ s.glacier.rows, (g.state = .copied ∨ g.state = .verified) →
    ∃ m ∈ s.messages.rows, anchors g m = true

structure Visible (s : State P) : Prop where
  wellFormed : WellFormed s
  anchored : Anchored s
  shown : ∀ g ∈ s.glacier.rows, ShownWhenRemoved g

theorem anchors_of_lookAlike {g : GlacierMessage P} {m : Message} (hst : g.state = .verified)
    (h : lookAlike g m = true) : anchors g m = true := by
  unfold lookAlike at h
  unfold anchors
  simp only [hst, decide_true, Bool.true_and]
  simp only [Bool.and_eq_true] at h
  simp [h.1, h.2]

/-- An anchor is a look-alike once the origin is gone, and then the row is verified. -/
theorem lookAlike_of_originGone {s : State P} {g : GlacierMessage P} {m : Message}
    (hm : m ∈ s.messages.rows) (h : anchors g m = true) (hgone : originGone s g = true) :
    g.state = .verified ∧ lookAlike g m = true := by
  simp only [anchors, Bool.and_eq_true, Bool.or_eq_true, decide_eq_true_eq] at h
  obtain ⟨hlive, horigin | ⟨hst, hadmits⟩⟩ := h
  · have hfind : s.messages.find? m.id = some m := KeyedTable.find?_eq_some_iff.2 ⟨hm, rfl⟩
    simp [originGone, horigin, hfind, hlive] at hgone
  · exact ⟨hst, by simp [lookAlike, hlive, hadmits]⟩

theorem not_finalised {s : State P} (h : Anchored s) {g : GlacierMessage P}
    (hg : g ∈ s.glacier.rows) (hst : g.state = .verified) (hgone : originGone s g = true) :
    s.messages.rows.any (lookAlike g) ≠ false := by
  obtain ⟨m, hm, hanchor⟩ := h g hg (.inr hst)
  rw [Ne, List.any_eq_false]
  exact fun hnone => hnone m hm (lookAlike_of_originGone hm hanchor hgone).2

theorem RowMoves.shown {s : State P} {l : Label} {g g' : GlacierMessage P}
    (hm : RowMoves s l g g') (ha : Anchored s) (hg : g ∈ s.glacier.rows)
    (h : ShownWhenRemoved g) : ShownWhenRemoved g' := by
  cases hm with
  | kept he => exact he ▸ h
  | verified hold hthere he =>
    exact ⟨by simp [he], fun _ => by rw [he]; exact h.hidden (.inl hold)⟩
  | removing hl hold he => exact ⟨fun _ => by simp [he], by simp [he]⟩
  | confirmed hold he => exact ⟨fun _ => by rw [he]; exact h.shown (.inl hold), by simp [he]⟩
  | repointed m hl hold hmem hlike he =>
    exact ⟨by simp [he, hold], fun _ => by rw [he]; exact h.hidden (.inr hold)⟩
  | finalised hl hold hgone hnone he => exact absurd hnone (not_finalised ha hg hold hgone)
  | restoring id hold he =>
    exact ⟨fun _ => by rw [he]; exact h.shown (.inr (.inl hold)), by simp [he]⟩
  | restored m hl hold hmem hlive hbytes he => exact ⟨by simp [he], by simp [he]⟩
  | failed reason hold hnot he =>
    exact ⟨fun _ => by rw [he]; exact h.shown (.inr (.inr hold)), by simp [he]⟩
  | refilled m folderId hl hmem helig hfolder htomb hacc hkey he =>
    exact ⟨by simp [he, refilledRow, copiedRow], fun _ => by rw [he]; rfl⟩

theorem RowMoves.turns {s : State P} {l : Label} {g g' : GlacierMessage P}
    (hm : RowMoves s l g g') (ha : Anchored s) (hg : g ∈ s.glacier.rows)
    (hb : RowBytes g) (hst : g.state = .copied ∨ g.state = .verified)
    (hgone : originGone s g = true) (hne : g'.state ≠ g.state) : g'.visibleAt.isSome = true := by
  cases hm with
  | kept he | repointed m hl hold hmem hlike he => exact absurd (by rw [he]) hne
  | verified hold hthere he =>
    rw [hgone] at hthere
    cases hthere
  | removing hl hold he => simp [he]
  | confirmed hold he => simp [hold] at hst
  | finalised hl hold _ hnone he => exact absurd hnone (not_finalised ha hg hold hgone)
  | restoring id hold he => simp [hold] at hst
  | restored m hl hold hmem hlive hbytes he => simp [hold] at hst
  | failed reason hold hnot he => simp [hold] at hst
  | refilled m folderId hl hmem helig hfolder htomb hacc hkey he =>
    rcases hb with ⟨hres, -⟩ | ⟨-, hnot, -⟩
    · simp [hres] at hst
    · simp [hnot] at htomb

theorem anchors_copied {c : Config} {m : Message} {g : GlacierMessage P}
    (helig : eligible c m = true) (horigin : g.originMessageId = some m.id) :
    anchors g m = true := by
  simp only [eligible, Bool.and_eq_true] at helig
  simp [anchors, helig.1.1.1.1.1.1.1, horigin]

/-- **The rows of a step**: each copied or verified one has an anchor the step spares. -/
theorem RowMoves.anchored {s : State P} {l : Label} {g g' : GlacierMessage P}
    (hm : RowMoves s l g g') (hk : KeepsVisible s l) (hg : g ∈ s.glacier.rows)
    (hst : g'.state = .copied ∨ g'.state = .verified) :
    ∃ m ∈ s.messages.rows, anchors g' m = true ∧ spares s g' m l = true := by
  have old (h : g.state = .copied ∨ g.state = .verified) :
      ∃ m ∈ s.messages.rows, anchors g m = true ∧ spares s g m l = true := by
    obtain ⟨m, hmem, h⟩ := List.any_eq_true.1 (hk g hg h)
    exact ⟨m, hmem, Bool.and_eq_true_iff.1 h⟩
  cases hm with
  | kept he => exact he ▸ old (he ▸ hst)
  | verified hold hthere he =>
    subst he
    obtain ⟨m, hmem, hanchor, hspares⟩ := old (.inl hold)
    refine ⟨m, hmem, ?_, ?_⟩
    · simp only [anchors, hold, Bool.and_eq_true, Bool.or_eq_true, decide_eq_true_eq, reduceCtorEq,
        false_and, or_false] at hanchor
      simp [anchors, hanchor.1, hanchor.2]
    · unfold spares at hspares ⊢
      split <;> simp_all [GlacierMessage.admits]
  | repointed m hl hold hmem hlike he =>
    subst hl he
    exact ⟨m, hmem, anchors_of_lookAlike hold hlike, rfl⟩
  | refilled m folderId hl hmem helig hfolder htomb hacc hkey he =>
    subst hl he
    exact ⟨m, hmem, anchors_copied helig rfl, rfl⟩
  | removing hl hold he | confirmed hold he | finalised hl hold hgone hnone he
  | restoring id hold he | restored m hl hold hmem hlive hbytes he | failed reason hold hnot he =>
    simp [he] at hst

/-- The expunge of a row does nothing, or leaves the row `removing`. -/
theorem removing_of_expunge {s t : State P} {gid : Uuid}
    (h : step s (.expungeMessage gid) = some t) :
    t = s ∨ ∀ g ∈ t.glacier.rows, g.id = gid → g.state = .removing := by
  have ht : t = (expungeMessage s gid).1 := (Option.some.inj h).symm
  subst ht
  unfold expungeMessage
  split
  · exact .inl rfl
  rename_i g hfind
  obtain ⟨hg, rfl⟩ := found hfind
  split
  · exact .inl rfl
  rename_i originId horigin
  split
  · exact .inl rfl
  rcases expungeIfMatches_cases (setGlacier s { g with
      state := .removing, expungeRequestedAt := some s.now, visibleAt := some s.now })
      originId g with hnone | ⟨m, hm, rfl, hlive, hadmits, hmark⟩
  · exact .inl (by simp [hnone])
  · right
    simp only [hmark, Nat.succ_ne_self, if_false]
    intro r hr hid
    rcases (mem_setGlacier { g with
        state := .removing, expungeRequestedAt := some s.now, visibleAt := some s.now }
        hg rfl).1 hr with rfl | ⟨-, hne⟩
    · rfl
    · exact absurd hid hne

/-- **The messages of a step**: an anchor that is spared is there afterwards, or is back
under a new id. -/
theorem Effect.anchored {s t : State P} {l : Label} (he : Effect s l t) (hs : step s l = some t)
    {g : GlacierMessage P} (hg : g ∈ t.glacier.rows)
    (hst : g.state = .copied ∨ g.state = .verified) {m : Message} (hm : m ∈ s.messages.rows)
    (hanchor : anchors g m = true) (hspares : spares s g m l = true) :
    ∃ m' ∈ t.messages.rows, anchors g m' = true := by
  rcases he.messagesForth m hm with ⟨m', hm', -, hmove⟩ | hdead | hclient | ⟨hl, id, uid, hback⟩
  · cases hmove with
    | kept heq => exact ⟨m', hm', heq ▸ hanchor⟩
    | reverted heq =>
      refine ⟨m', hm', ?_⟩
      have hlive : m.expungedAt = none := by simp_all [anchors, Message.live]
      rwa [heq, ← hlive]
    | expunged r hr hstep hlive hadmits heq =>
      rcases hstep with ⟨rfl, hverified, horigin⟩ | ⟨rfl, -, hstate⟩
      · rcases removing_of_expunge hs with rfl | hremoving
        · exact ⟨m, hm, hanchor⟩
        have hne : ¬ r.id = g.id := by
          intro hid
          simp [hremoving g hg hid.symm] at hst
        simp only [spares, hne, decide_false, Bool.false_or, List.all_eq_true] at hspares
        simpa [hverified, horigin, hadmits] using hspares r hr
      · simp only [spares, ne_eq, not_true, decide_false, Bool.false_or, List.all_eq_true]
          at hspares
        have h := hspares r hr
        rcases hstate with hstate | hstate | hstate <;> simp [hstate, hadmits] at h
  · simp [anchors, hdead.1] at hanchor
  · simp [hclient, spares] at hspares
  · refine ⟨_, hback, ?_⟩
    simp only [hl, spares, ne_eq, not_true, decide_false, Bool.false_or, Bool.and_eq_true]
      at hspares
    unfold anchors
    rw [hspares.1, Bool.true_and]
    simpa [Message.live] using .inr hspares.2

/-- **The step lemma**. -/
theorem visible_step {s t : State P} {l : Label} (h : Visible s) (hk : KeepsVisible s l)
    (hs : step s l = some t) : Visible t := by
  have he : Effect s l t := step_effect hs
  refine ⟨wellFormed_step h.wellFormed he, fun g' hg' hst => ?_, fun g' hg' => ?_⟩
  · have hbefore : ∃ m ∈ s.messages.rows, anchors g' m = true ∧ spares s g' m l = true := by
      rcases he.glacierBack g' hg' with ⟨g, hg, -, hmove⟩ | ⟨m, hm, folderId, hl, helig, hrow, -⟩
      · exact hmove.anchored hk hg hst
      · exact ⟨m, hm, anchors_copied helig (by rw [hrow]; rfl), by rw [hl]; rfl⟩
    obtain ⟨m, hm, hanchor, hspares⟩ := hbefore
    exact he.anchored hs hg' hst hm hanchor hspares
  · rcases he.glacierBack g' hg' with ⟨g, hg, -, hmove⟩ | ⟨m, hm, folderId, -, -, hrow, -⟩
    · exact hmove.shown h.anchored hg (h.shown g hg)
    · rw [hrow]
      exact ⟨by simp [copiedRow], fun _ => rfl⟩

/-- **The run lemma**. -/
theorem visible_reachable {s : State P} (h : (system P).Reachable KeepsVisible s) : Visible s := by
  apply h.invariant
  · rintro s ⟨c, rfl⟩
    exact ⟨wellFormed_start c, by simp [Anchored, start, KeyedTable.empty],
      by simp [start, KeyedTable.empty]⟩
  · exact fun s l t hs hk hst => visible_step hs hk hst

theorem Visible.turnsVisible {s t : State P} {l : Label} (h : Visible s) (he : Effect s l t) :
    TurnsVisible s t := by
  intro g hg hst hgone g' hg' hid hne
  rcases he.glacierBack g' hg' with ⟨g₀, hg₀, hid₀, hmove⟩ | ⟨m, hm, folderId, -, -, hrow, -⟩
  · obtain rfl := s.glacier.eq_of_key_eq hg₀ hg (hid₀.symm.trans hid)
    exact hmove.turns h.anchored hg (h.wellFormed.bytes _ hg) hst hgone hne
  · have hnew : g'.id = s.nextId := by
      rw [hrow]
      rfl
    exact absurd (h.wellFormed.glacierIds g hg) (by rw [← hid, hnew]; exact Nat.lt_irrefl _)

theorem reresolved_of_lookAlike {s : State P} {g : GlacierMessage P} (hg : g ∈ s.glacier.rows)
    (hst : g.state = .verified) (hgone : originGone s g = true) {m : Message}
    (hm : m ∈ s.messages.rows) (hlike : lookAlike g m = true) :
    step s (.reresolveOrigins g.id (some m.id)) =
      some (setGlacier s { g with originMessageId := some m.id }) := by
  have hfind : s.glacier.find? g.id = some g := KeyedTable.find?_eq_some_iff.2 ⟨hg, rfl⟩
  have hmfind : s.messages.find? m.id = some m := KeyedTable.find?_eq_some_iff.2 ⟨hm, rfl⟩
  unfold step reresolveOrigins
  simp only [hfind, hmfind]
  rw [if_pos ⟨hst, hgone⟩, if_pos hlike]

/-- The expunge of a verified row sets `visible_at`. -/
theorem shown_of_expunge {s : State P} {g : GlacierMessage P} (hg : g ∈ s.glacier.rows)
    (hst : g.state = .verified) {m : Message} (hm : m ∈ s.messages.rows)
    (horigin : g.originMessageId = some m.id) (hlike : lookAlike g m = true) : ∃ t,
      step s (.expungeMessage g.id) = some t ∧
        ∃ g' ∈ t.glacier.rows, g'.id = g.id ∧ g'.visibleAt.isSome = true := by
  have hfind : s.glacier.find? g.id = some g := KeyedTable.find?_eq_some_iff.2 ⟨hg, rfl⟩
  have hmfind : s.messages.find? m.id = some m := KeyedTable.find?_eq_some_iff.2 ⟨hm, rfl⟩
  refine ⟨_, rfl, { g with
    state := .removing, expungeRequestedAt := some s.now, visibleAt := some s.now
    originMessageId := some m.id }, ?_, rfl, rfl⟩
  have hmatch : (m.live && g.admits m) = true := hlike
  have hclaim : ∀ claimed : State P, claimed.messages = s.messages →
      (expungeIfMatches claimed m.id g).2 = 1 ∧
        (expungeIfMatches claimed m.id g).1.glacier = claimed.glacier := by
    intro claimed hsame
    unfold expungeIfMatches
    rw [hsame, hmfind]
    simp only [hmatch, if_true, and_self]
  have hdone := hclaim (setGlacier s { g with
    state := .removing, expungeRequestedAt := some s.now, visibleAt := some s.now
    originMessageId := some m.id }) rfl
  unfold expungeMessage
  simp only [hfind, horigin]
  rw [if_neg (not_not.2 hst), if_neg (by rw [hdone.1]; exact Nat.one_ne_zero), hdone.2]
  refine (mem_setGlacier _ hg ?_).2 (.inl rfl)
  rfl

/-- The re-point and the expunge of a verified row both go through at a look-alike. -/
theorem exec_to_light {s : State P} {g : GlacierMessage P} (hg : g ∈ s.glacier.rows)
    (hst : g.state = .verified) (hgone : originGone s g = true) {m : Message}
    (hm : m ∈ s.messages.rows) (hlike : lookAlike g m = true) : ∃ t,
      (system P).exec s [.reresolveOrigins g.id (some m.id), .expungeMessage g.id] = some t ∧
        ∃ g' ∈ t.glacier.rows, g'.id = g.id ∧ g'.visibleAt.isSome = true := by
  have hpointed := (mem_setGlacier { g with originMessageId := some m.id } hg rfl).2 (.inl rfl)
  obtain ⟨t, hst', hshown⟩ := shown_of_expunge hpointed hst hm rfl hlike
  refine ⟨t, ?_, hshown⟩
  have hfirst := reresolved_of_lookAlike hg hst hgone hm hlike
  simp only [TransitionSystem.exec, system, hfirst, Option.bind_some]
  rw [hst', Option.bind_some]

theorem Visible.orphans {s : State P} (h : Visible s) : OrphansComeToLight s := by
  intro g hg hst hgone
  obtain ⟨m, hm, hanchor⟩ := h.anchored g hg hst
  obtain ⟨hverified, hlike⟩ := lookAlike_of_originGone hm hanchor hgone
  exact ⟨⟨m, hm, hlike⟩, fun m' hm' hlike' => exec_to_light hg hverified hgone hm' hlike'⟩

/-- **Nothing glaciered stays invisible while its last live message is kept**: rows past
`verified` are listed, a copied or verified row whose message is gone turns only into a
listed one, and the sweep can always turn it. -/
theorem never_invisible_while_anchored (P : Platform) (s : State P)
    (hs : (system P).Reachable KeepsVisible s) :
    NeverInvisible s ∧ OrphansComeToLight s ∧
      ∀ l t, (system P).step s l = some t → TurnsVisible s t := by
  have h := visible_reachable hs
  exact ⟨fun g hg => (h.shown g hg).shown, h.orphans,
    fun l t hst => h.turnsVisible (step_effect hst)⟩

theorem never_invisible_after_resync :
    ∃ s, (system plainPlatform).exec (start plainPlatform openConfig) resyncedMove = some s ∧
      NeverInvisible s ∧ OrphansComeToLight s ∧
        ∀ l t, (system plainPlatform).step s l = some t → TurnsVisible s t :=
  ⟨_, rfl, never_invisible_while_anchored plainPlatform _
    (TransitionSystem.reachable_of_exec resyncedMove ⟨openConfig, rfl⟩ (by decide) rfl)⟩

/-- Two calls move message 0 at once: the first copies and verifies, the second finds
the copy and removes the live row as its duplicate, the first finds its origin gone. -/
def concurrentMoves : List Label :=
  [.arrive (oneByte 1), .copyMessage 0, .copyMessage 0, .verifyMessage 1, .resolveDuplicate 0 1,
    .expungeMessage 1, .reresolveOrigins 1 none, .expungeLands 0]

/-- The message is then on no server and in no listing. -/
theorem concurrent_moves_hide_message :
    ∃ s, (system plainPlatform).exec (start plainPlatform openConfig) concurrentMoves = some s ∧
      (system plainPlatform).Reachable TransitionSystem.anyStep s ∧ s.messages.rows = [] ∧
        ¬ NeverInvisible s := by
  refine ⟨_, rfl, TransitionSystem.reachable_of_exec_any concurrentMoves ⟨openConfig, rfl⟩ rfl, rfl,
    ?_⟩
  unfold NeverInvisible
  decide

end MailVerdict.Analysis.Glacier
