import MailVerdict.Computation.AssocLists
import MailVerdict.Model.BulkWrites

/-!
# What a bulk action may touch

A bulk action skips the messages that are not where its request saw them, and guards its writes
to where they are. What it resolves comes from several queries, though: a message skipped by its
name is written if the scope holds it or another conversation, and one whose entry is not guarded
is written wherever it is. The mark-read that follows a move and the way into the glacier have no
guard at all. A run touches only what it may exactly if no statement meets a message in one of
these ways.
-/

namespace MailVerdict.Analysis.BulkGuards

open MailVerdict.Computation Model.MailActions
open Model.Selection (GlacierRow BulkActionScope)
open Model.BulkWrites Model.BulkWrites.State

variable {id : Uuid} {ids : List Uuid} {r : MailRow}

variable {accountId : Uuid} {q : BulkRequest} {s t : State} {o : GlacierOutcome}

def guardOf (q : BulkRequest) (id : Uuid) : Option Uuid := q.expectedFolderIds.lookup id

/-- A write of a message that is not skipped, in the folder of its guard if it has one. -/
def Fair (q : BulkRequest) (s : State) (w : Write) : Prop :=
  w.id ∉ s.skipped ∧ ∀ f ∈ guardOf q w.id, w.folderId = f

instance (q : BulkRequest) (s : State) (w : Write) : Decidable (Fair q s w) :=
  inferInstanceAs (Decidable (_ ∧ _))

/-- **The property**: no message that is skipped has been written, and none with a guard outside
the folder of its guard. -/
def TouchesOnlyFair (q : BulkRequest) (s : State) : Prop := ∀ w ∈ s.log ++ s.acted, Fair q s w

instance (q : BulkRequest) (s : State) : Decidable (TouchesOnlyFair q s) :=
  inferInstanceAs (Decidable (∀ w ∈ s.log ++ s.acted, Fair q s w))

/-! ## The condition -/

def nextUpdate (q : BulkRequest) (s : State) (o : GlacierOutcome) : Option Update :=
  match s.phase with
  | .flagging (g :: _) => some (setFlagsBulk g.2 q.action g.1)
  | .expunging (g :: _) => some (expungeBulk g.2 g.1)
  | .filing _ role [] => some (s.markFiled role)
  | .filing target _ (g :: _) => some (moveInto target g.1 g.2)
  | .glaciering (id :: _) _ => some (glacierWrite id o)
  | .rulingMove target _ id _ => some (moveInto target (s.expected id) [id])
  | .rulingSeen role id _ => some (s.markRuled role id)
  | _ => none

def hit (q : BulkRequest) (s : State) (o : GlacierOutcome) : List MailRow :=
  (nextUpdate q s o).elim [] fun u => s.messages.rows.filter u.hits

def writeOf (s : State) (r : MailRow) : Write := ⟨r.id, s.committedFolder r⟩

/-- Whether a message was skipped, or its entry does not carry its guard: it came in by the scope,
or by a conversation. -/
def strayed (q : BulkRequest) (s : State) (id : Uuid) : Bool :=
  decide (id ∈ s.skipped) ||
    ((guardOf q id).isSome && decide (s.expectedOf.lookup id ≠ some (guardOf q id)))

/-- Whether nothing ties the next write of a message to its guard: it strayed; or the statement is
the mark-read after a move, and the transaction did not move it; or it is the way into the
glacier. -/
def unguarded (q : BulkRequest) (s : State) (r : MailRow) : Bool :=
  match s.phase with
  | .filing _ _ [] | .rulingSeen _ _ _ => (s.held.lookup r.id).isNone
  | .glaciering _ _ => true
  | _ => strayed q s r.id

def opened (q : BulkRequest) (s : State) (o : GlacierOutcome) : List Write :=
  match s.phase with
  | .acting (id :: _) =>
    ((glacierRowOf s.glacier id).toList.filter fun _ =>
      (s.glacierActs q o).toOption.any fun ok => ok).flatMap glacierWrites
  | _ => []

def refuses (q : BulkRequest) (s : State) (id : Uuid) (o : GlacierOutcome) : Bool :=
  (glacierRowOf s.glacier id).isNone || (s.glacierActs q o).toOption.any fun ok => !ok

def misses (q : BulkRequest) (s : State) (o : GlacierOutcome) : List Uuid :=
  match s.phase with
  | .acting (id :: _) => if refuses q s id o then [id] else []
  | .filing target _ (g :: _) => s.missed target g
  | .glaciering [] (g :: _) => g.2.filter fun id => decide (id ∉ s.eligible g)
  | .glaciering (id :: _) _ =>
    if o = .refused ∨ s.matched (glacierWrite id o) = [] then [id] else []
  | _ => []

def outcomeOf : Label → Option GlacierOutcome
  | .run o => some o
  | .outside _ _ _ _ => none

/-- **The condition**: a statement that is not tied to a message's guard finds the message fair to
write; so is every message acted on in the glacier; and no message skipped now was acted on there
under its other name. -/
def Tied (q : BulkRequest) (s : State) (l : Label) : Prop :=
  ∀ o ∈ outcomeOf l,
    (∀ r ∈ hit q s o, unguarded q s r = true → Fair q s (writeOf s r)) ∧
      (∀ w ∈ opened q s o, Fair q s w) ∧ ∀ w ∈ s.acted, w.id ∉ misses q s o

instance (q : BulkRequest) (s : State) (l : Label) : Decidable (Tied q s l) :=
  inferInstanceAs (Decidable (∀ o ∈ outcomeOf l, _ ∧ _))

/-! ## What a statement records -/

/-- What a statement adds to what is written, acted on and skipped; its transaction goes on with
what it wrote or ends. -/
structure Records (q : BulkRequest) (s : State) (o : GlacierOutcome) (t : State) : Prop where
  log : t.log = s.log ++ (hit q s o).map (writeOf s)
  acted : t.acted = s.acted ++ opened q s o
  skipped : t.skipped = s.skipped ++ misses q s o
  held : t.held = s.held ++ ((hit q s o).map fun r => (r.id, s.committedFolder r)) ∨ t.held = []

theorem records_act {rest : List Uuid} (hphase : s.phase = .acting (id :: rest)) :
    Records q s o (s.act q id o rest) := by
  unfold act
  split
  · rename_i e hrow herror
    constructor <;> simp [hit, nextUpdate, opened, misses, refuses, hphase, hrow, herror, finish, Except.toOption]
  · rename_i hrow herror
    constructor <;> simp [hit, nextUpdate, opened, misses, refuses, hphase, hrow, herror, Except.toOption]
  · rename_i hrow herror
    constructor <;> simp [hit, nextUpdate, opened, misses, refuses, hphase, hrow, herror, Except.toOption]
  · rename_i hrow
    constructor <;> simp [hit, nextUpdate, opened, misses, refuses, hphase, hrow]

theorem records_dispatch (hphase : s.phase = .acting []) : Records q s o (s.dispatch q) := by
  unfold dispatch
  repeat' split
  all_goals constructor <;> simp [hit, nextUpdate, opened, misses, hphase, finish]

theorem records_run (hreading : ∀ rest, s.phase ≠ .reading rest)
    (h : s.run accountId q o = some t) : Records q s o t := by
  unfold State.run at h
  split at h
  case h_1 hphase => exact absurd hphase (hreading _)
  case h_2 hphase => exact absurd hphase (hreading _)
  case h_3 hphase =>
    cases h
    exact records_dispatch hphase
  case h_4 id rest hphase =>
    cases h
    exact records_act hphase
  case h_18 => cases h
  all_goals
    rename_i hphase
    cases h
    constructor <;>
      simp [hit, nextUpdate, opened, misses, hphase, State.write, State.finish, State.rule,
        writeOf]

/-! ## The invariant -/

def Fresh (s : State) (ids : List Uuid) : Prop := ids.Nodup ∧ ∀ w ∈ s.log, w.id ∉ ids

def Carried (s : State) (gs : List Group) : Prop :=
  ∀ g ∈ gs, ∀ id ∈ g.2, s.expectedOf.lookup id = some g.1

def Ready (s : State) : Prop :=
  match s.phase with
  | .reading _ => s.log = [] ∧ s.acted = [] ∧ s.inScope.Nodup ∧ s.explicit.Nodup ∧
      (s.members.map Prod.fst).Nodup
  | .acting _ => s.log = [] ∧ (s.expectedOf.map Prod.fst).Nodup
  | .flagging rest | .expunging rest => Carried s rest
  | .filing _ _ rest => Carried s rest ∧ Fresh s (rest.flatMap Prod.snd)
  | .glaciering eligible rest => Fresh s (eligible ++ rest.flatMap Prod.snd)
  | .ruling _ | .rulingMove _ _ _ _ | .rulingSeen _ _ _ | .done _ => True

/-- What the open transaction holds was written by the run. -/
structure Inv (s : State) : Prop where
  held : ∀ x ∈ s.held, (⟨x.1, x.2⟩ : Write) ∈ s.log
  ready : Ready s

/-! ### Resolving -/

theorem nodup_scopeIds (S : Messages) (scope : BulkActionScope) :
    (resolveScopeIds S accountId scope).Nodup := by
  exact S.primaryKey.sublist (List.filter_sublist.map MailRow.id)

theorem nodup_members (S : Messages) (p : MailRow → Bool) :
    (((S.rows.filter p).map fun r => (r.id, r.folderId)).map Prod.fst).Nodup := by
  rw [List.map_map]
  exact S.primaryKey.sublist (List.filter_sublist.map MailRow.id)

theorem ready_read {r : Read} {rest rest' : List Read} (h : Ready s)
    (hphase : s.phase = .reading rest) :
    Ready { s.read accountId q r with phase := .reading rest' } := by
  rw [Ready, hphase] at h
  obtain ⟨hlog, hacted, hscope, hexplicit, hmembers⟩ := h
  cases r with
  | scope =>
    refine ⟨hlog, hacted, ?_, hexplicit, hmembers⟩
    show (q.scope.toList.flatMap (resolveScopeIds s.messages accountId)).Nodup
    cases q.scope with
    | none => exact List.nodup_nil
    | some scope => simpa using nodup_scopeIds s.messages scope
  | explicit =>
    exact ⟨hlog, hacted, hscope, (eraseDups_nodup _).filter _, hmembers⟩
  | members => exact ⟨hlog, hacted, hscope, hexplicit, nodup_members s.messages _⟩
  | selves =>
    refine ⟨hlog, hacted, hscope, hexplicit, ?_⟩
    show ((s.members ++ _).map Prod.fst).Nodup
    rw [List.map_append, List.nodup_append']
    refine ⟨hmembers, ?_, ?_⟩
    · exact (nodup_members s.messages _).sublist (List.filter_sublist.map Prod.fst)
    · intro id hid hnew
      obtain ⟨m, hm, rfl⟩ := List.mem_map.1 hnew
      exact of_decide_eq_true (List.mem_filter.1 hm).2 hid
  | _ => exact ⟨hlog, hacted, hscope, hexplicit, hmembers⟩

theorem keys_writeGuards (explicit : List Uuid) (live guards : List (Uuid × Uuid))
    (members : Option (List (Uuid × Uuid))) :
    (Model.BulkWrites.writeGuards explicit live guards members).map Prod.fst =
      members.elim explicit (List.map Prod.fst) := by
  cases members with
  | none =>
    rw [Model.BulkWrites.writeGuards, List.map_map]
    exact List.map_id explicit
  | some members => simp [Model.BulkWrites.writeGuards]

theorem ready_resolve (h : Ready s) (hphase : s.phase = .reading []) : Ready (s.resolve q) := by
  rw [Ready, hphase] at h
  obtain ⟨hlog, hacted, hscope, hexplicit, hmembers⟩ := h
  have hguards : ((s.namedGuards q).map Prod.fst).Nodup := by
    rw [namedGuards, keys_writeGuards]
    split
    · exact hmembers
    · exact hexplicit
  have hkeys : ((s.inScope.map (fun id => ((id, none) : Uuid × Option Uuid)) ++
      (s.namedGuards q).filter fun x => decide (x.1 ∉ s.inScope)).map Prod.fst).Nodup := by
    rw [List.map_append, List.map_map, List.nodup_append']
    refine ⟨?_, hguards.sublist (List.filter_sublist.map Prod.fst), ?_⟩
    · simpa [Function.comp_def] using hscope
    · intro id hid hnew
      obtain ⟨x, hx, rfl⟩ := List.mem_map.1 hnew
      refine of_decide_eq_true (List.mem_filter.1 hx).2 ?_
      simpa [Function.comp_def] using hid
  unfold resolve
  dsimp only
  repeat' split
  · trivial
  · trivial
  · trivial
  · exact ⟨hlog, hkeys⟩

/-! ### The groups -/

theorem mem_groups {g : Group} : g ∈ s.groups →
    g.2 = (s.expectedOf.filter fun x => decide (x.2 = g.1)).map Prod.fst := by
  intro hg
  obtain ⟨e, -, rfl⟩ := List.mem_map.1 hg
  rfl

theorem carried_groups (h : (s.expectedOf.map Prod.fst).Nodup) : Carried s s.groups := by
  intro g hg id hid
  rw [mem_groups hg] at hid
  obtain ⟨x, hx, rfl⟩ := List.mem_map.1 hid
  obtain ⟨hmem, he⟩ := List.mem_filter.1 hx
  rw [← of_decide_eq_true he]
  exact (lookup_eq_some_iff_mem h).2 hmem

theorem nodup_groups (h : (s.expectedOf.map Prod.fst).Nodup) :
    (s.groups.flatMap Prod.snd).Nodup := by
  have hcarried := carried_groups h
  refine List.nodup_flatMap.2 ⟨fun g hg => ?_, ?_⟩
  · rw [mem_groups hg]
    exact h.sublist (List.filter_sublist.map Prod.fst)
  · -- two groups with an id in common have one guard
    have hfst : s.groups.map Prod.fst = (s.expectedOf.map Prod.snd).eraseDups := by
      simp [groups, Function.comp_def]
    have hne : s.groups.Pairwise fun g g' => g.1 ≠ g'.1 := by
      have hnodup : (s.groups.map Prod.fst).Nodup := hfst ▸ eraseDups_nodup _
      exact List.pairwise_map.1 hnodup
    refine hne.imp_of_mem fun {g g'} hg hg' hguards id hid hid' => hguards ?_
    exact Option.some.inj ((hcarried g hg id hid).symm.trans (hcarried g' hg' id hid'))

theorem ready_dispatch (h : Ready s) (hphase : s.phase = .acting []) : Ready (s.dispatch q) := by
  rw [Ready, hphase] at h
  obtain ⟨hlog, hkeys⟩ := h
  have hcarried := carried_groups hkeys
  have hfresh : Fresh s (s.groups.flatMap Prod.snd) :=
    ⟨nodup_groups hkeys, fun w hw => absurd hw (hlog ▸ List.not_mem_nil)⟩
  unfold dispatch
  repeat' split
  all_goals first
    | exact hcarried
    | exact hfresh
    | exact ⟨hcarried, hfresh⟩
    | exact True.intro

/-! ### Writing -/

theorem Fresh.of_append {ws : List Write} (h : Fresh s ids)
    (hlog : t.log = s.log ++ ws) (hws : ∀ w ∈ ws, w.id ∉ ids) : Fresh t ids := by
  refine ⟨h.1, fun w hw => ?_⟩
  rw [hlog, List.mem_append] at hw
  obtain hw | hw := hw
  · exact h.2 w hw
  · exact hws w hw

theorem Fresh.right {ids' : List Uuid} (h : Fresh s (ids ++ ids')) : Fresh s ids' := by
  obtain ⟨hnodup, hlog⟩ := h
  refine ⟨(List.nodup_append'.1 hnodup).2.1, fun w hw hid => ?_⟩
  exact hlog w hw (List.mem_append_right _ hid)

theorem Fresh.sublist {ids' : List Uuid} (h : Fresh s ids') (hsub : ids.Sublist ids') :
    Fresh s ids :=
  ⟨h.1.sublist hsub, fun w hw hid => h.2 w hw (hsub.subset hid)⟩

theorem mem_of_moves {target : Uuid} {g : Group} (hr : r ∈ s.messages.rows)
    (h : (moveInto target g.1 g.2).hits r = true) : r.id ∈ g.2 ∧ r.id ∈ s.landing target g := by
  obtain ⟨e, ids⟩ := g
  cases e with
  | none =>
    simp only [moveInto, moveMessageBulk, Bool.and_eq_true, decide_eq_true_eq] at h
    exact ⟨h.1, h.1⟩
  | some source =>
    have hmatched : r.id ∈ s.matched (moveMessagesFrom ids source target) :=
      List.mem_map_of_mem (List.mem_filter.2 ⟨hr, h⟩)
    simp only [moveInto, moveMessagesFrom, Bool.and_eq_true, decide_eq_true_eq] at h
    obtain ⟨⟨hne, hid⟩, -⟩ := h
    refine ⟨hid, ?_⟩
    show r.id ∈ if source = target then ids else s.matched (moveMessagesFrom ids source target)
    rw [if_neg hne]
    exact hmatched

theorem eligible_sublist (s : State) (g : Group) : (s.eligible g).Sublist g.2 := by
  unfold eligible
  split
  · exact List.Sublist.refl _
  · exact List.filter_sublist

theorem ready_act {rest : List Uuid} (h : Ready s)
    (hphase : s.phase = .acting (id :: rest)) : Ready (s.act q id o rest) := by
  rw [Ready, hphase] at h
  unfold act
  split
  · exact True.intro
  all_goals exact h

theorem ready_rule {rest : List Uuid} : Ready (s.rule q id rest) := by
  unfold rule
  dsimp only
  generalize Option.bind _ _ = home
  cases home with
  | none => exact True.intro
  | some x => exact True.intro

theorem ready_run (h : Ready s) (hst : s.run accountId q o = some t) : Ready t := by
  unfold State.run at hst
  split at hst
  case h_1 hphase =>
    cases hst
    exact ready_resolve h hphase
  case h_2 hphase =>
    cases hst
    exact ready_read h hphase
  case h_3 hphase =>
    cases hst
    exact ready_dispatch h hphase
  case h_4 hphase =>
    cases hst
    exact ready_act h hphase
  case h_9 g rest hphase =>
    cases hst
    rw [Ready, hphase] at h
    exact fun g' hg' => h g' (List.mem_cons_of_mem g hg')
  case h_10 g rest hphase =>
    cases hst
    rw [Ready, hphase] at h
    exact fun g' hg' => h g' (List.mem_cons_of_mem g hg')
  case h_12 target role g rest hphase =>
    cases hst
    rw [Ready, hphase] at h
    obtain ⟨hcarried, hfresh⟩ := h
    refine ⟨fun g' hg' => hcarried g' (List.mem_cons_of_mem g hg'), ?_⟩
    rw [List.flatMap_cons] at hfresh
    refine hfresh.right.of_append rfl fun w hw hrest => ?_
    obtain ⟨r, hr, rfl⟩ := List.mem_map.1 hw
    obtain ⟨hmem, hhit⟩ := List.mem_filter.1 hr
    exact (List.nodup_append'.1 hfresh.1).2.2 (mem_of_moves hmem hhit).1 hrest
  case h_13 g rest hphase =>
    cases hst
    rw [Ready, hphase] at h
    exact h.sublist ((eligible_sublist s g).append_right (rest.flatMap Prod.snd))
  case h_14 id ids rest hphase =>
    cases hst
    rw [Ready, hphase] at h
    have hfresh : Fresh s ([id] ++ (ids ++ rest.flatMap Prod.snd)) := h
    refine hfresh.right.of_append rfl fun w hw hrest => ?_
    obtain ⟨r, hr, rfl⟩ := List.mem_map.1 hw
    obtain ⟨-, hhit⟩ := List.mem_filter.1 hr
    simp only [glacierWrite, Bool.and_eq_true, decide_eq_true_eq] at hhit
    exact (List.nodup_cons.1 h.1).1 (hhit.1.1 ▸ hrest)
  case h_15 => exact Option.some.inj hst ▸ ready_rule
  case h_16 target role id rest hphase =>
    cases hst
    by_cases hlands : id ∈ s.landing target (s.single id)
    · simp only [Ready, if_pos hlands]
    · simp only [Ready, if_neg hlands]
  case h_18 => cases hst
  all_goals
    cases hst
    exact True.intro

theorem untouched_of_reading (h : Inv s) {rest : List Read} (hphase : s.phase = .reading rest)
    (hst : s.run accountId q o = some t) : t.log = [] ∧ t.acted = [] ∧ t.held = [] := by
  have hready := h.ready
  rw [Ready, hphase] at hready
  obtain ⟨hlog, hacted, -⟩ := hready
  have hheld : s.held = [] := List.eq_nil_iff_forall_not_mem.2 fun x hx =>
    absurd (h.held x hx) (hlog ▸ List.not_mem_nil)
  unfold State.run at hst
  rw [hphase] at hst
  cases rest with
  | nil =>
    cases hst
    unfold resolve
    dsimp only
    repeat' split
    all_goals first | exact ⟨hlog, hacted, hheld⟩ | exact ⟨hlog, hacted, rfl⟩
  | cons r rest =>
    cases hst
    cases r
    all_goals exact ⟨hlog, hacted, hheld⟩

theorem Inv.run (h : Inv s) (hst : s.run accountId q o = some t) : Inv t := by
  refine ⟨fun x hx => ?_, ready_run h.ready hst⟩
  by_cases hreading : ∃ rest, s.phase = .reading rest
  · obtain ⟨rest, hphase⟩ := hreading
    rw [(untouched_of_reading h hphase hst).2.2] at hx
    cases hx
  · push Not at hreading
    have hrecords := records_run hreading hst
    rw [hrecords.log, List.mem_append]
    obtain hheld | hheld := hrecords.held
    · rw [hheld, List.mem_append] at hx
      refine hx.imp (h.held x) fun hnew => ?_
      obtain ⟨r, hr, rfl⟩ := List.mem_map.1 hnew
      exact List.mem_map_of_mem (f := writeOf s) hr
    · rw [hheld] at hx
      cases hx

theorem Inv.step {l : Label} (h : Inv s) (hst : step accountId q s l = some t) : Inv t := by
  cases l with
  | run o => exact h.run hst
  | outside account glacierFolders messages glacier =>
    obtain ⟨-, hsame⟩ := Option.ite_none_right_eq_some.1 hst
    cases hsame
    exact ⟨h.held, h.ready⟩

/-! ## One step -/

theorem fair_of_held (h : Inv s) (hs : TouchesOnlyFair q s)
    (hheld : (s.held.lookup r.id).isNone = false) : Fair q s (writeOf s r) := by
  cases hlookup : s.held.lookup r.id with
  | none => simp [hlookup] at hheld
  | some f =>
    have hwrite : writeOf s r = ⟨r.id, f⟩ := by
      rw [writeOf, committedFolder, hlookup]
      rfl
    rw [hwrite]
    exact hs _ (List.mem_append_left _ (h.held _ (mem_of_lookup hlookup)))

theorem fair_of_entry (h : Inv s) (hs : TouchesOnlyFair q s) {e : Option Uuid}
    (hentry : ∀ f, s.expectedOf.lookup r.id = some (some f) → e = some f)
    (hguard : ∀ f, e = some f → r.folderId = f) (hstrayed : strayed q s r.id = false) :
    Fair q s (writeOf s r) := by
  cases hheld : (s.held.lookup r.id).isNone with
  | false => exact fair_of_held h hs hheld
  | true =>
    have hwrite : writeOf s r = ⟨r.id, r.folderId⟩ := by
      rw [writeOf, committedFolder, Option.isNone_iff_eq_none.1 hheld]
      rfl
    rw [strayed, Bool.or_eq_false_iff, Bool.and_eq_false_iff] at hstrayed
    obtain ⟨hskipped, hcarried⟩ := hstrayed
    rw [hwrite]
    refine ⟨of_decide_eq_false hskipped, fun f hf => hguard f (hentry f ?_)⟩
    have hguarded : guardOf q r.id = some f := hf
    rw [hguarded] at hcarried
    exact not_not.1 (of_decide_eq_false (hcarried.resolve_left nofun))

theorem folder_of_guardHolds {e : Option Uuid} (h : guardHolds e r = true) :
    ∀ f, e = some f → r.folderId = f := by
  rintro f rfl
  simp only [guardHolds, Bool.and_eq_true, decide_eq_true_eq] at h
  exact h.1

theorem folder_of_moves {target : Uuid} {e : Option Uuid}
    (h : (moveInto target e ids).hits r = true) : ∀ f, e = some f → r.folderId = f := by
  rintro f rfl
  simp only [moveInto, moveMessagesFrom, Bool.and_eq_true] at h
  exact folder_of_guardHolds h.2 f rfl

/-- **What is tied to a guard is fair to write.** -/
theorem fair_of_tied (h : Inv s) (hs : TouchesOnlyFair q s) (hr : r ∈ hit q s o)
    (htied : unguarded q s r = false) : Fair q s (writeOf s r) := by
  have hready := h.ready
  have hcarried : ∀ {gs : List Group} {g : Group}, Carried s (g :: gs) → r.id ∈ g.2 →
      ∀ f, s.expectedOf.lookup r.id = some (some f) → g.1 = some f := by
    intro gs g hgs hid f hf
    exact Option.some.inj ((hgs g List.mem_cons_self r.id hid).symm.trans hf)
  unfold hit nextUpdate at hr
  split at hr
  case h_1 g rest hphase =>
    obtain ⟨-, hhit⟩ := List.mem_filter.1 hr
    simp only [setFlagsBulk, Bool.and_eq_true, decide_eq_true_eq] at hhit
    rw [Ready, hphase] at hready
    rw [unguarded, hphase] at htied
    exact fair_of_entry h hs (hcarried hready hhit.1.1) (folder_of_guardHolds hhit.2) htied
  case h_2 g rest hphase =>
    obtain ⟨-, hhit⟩ := List.mem_filter.1 hr
    simp only [expungeBulk, Bool.and_eq_true, decide_eq_true_eq] at hhit
    rw [Ready, hphase] at hready
    rw [unguarded, hphase] at htied
    exact fair_of_entry h hs (hcarried hready hhit.1) (folder_of_guardHolds hhit.2) htied
  case h_3 target role hphase =>
    rw [unguarded, hphase] at htied
    exact fair_of_held h hs htied
  case h_4 target role g rest hphase =>
    obtain ⟨hmem, hhit⟩ := List.mem_filter.1 hr
    rw [Ready, hphase] at hready
    rw [unguarded, hphase] at htied
    exact fair_of_entry h hs (hcarried hready.1 (mem_of_moves hmem hhit).1) (folder_of_moves hhit)
      htied
  case h_5 id ids rest hphase =>
    rw [unguarded, hphase] at htied
    cases htied
  case h_6 target role id rest hphase =>
    obtain ⟨hmem, hhit⟩ := List.mem_filter.1 hr
    have hid : r.id = id := List.mem_singleton.1 (mem_of_moves (g := s.single id) hmem hhit).1
    rw [unguarded, hphase] at htied
    refine fair_of_entry h hs (fun f hf => ?_) (folder_of_moves hhit) htied
    rw [State.expected, ← hid, hf]
    rfl
  case h_7 role id rest hphase =>
    rw [unguarded, hphase] at htied
    exact fair_of_held h hs htied
  case h_8 => cases hr

/-- A row the statement misses is neither written, hit nor opened. -/
theorem misses_apart (h : Inv s) (hid : id ∈ misses q s o) :
    (∀ w ∈ s.log, w.id ≠ id) ∧ (∀ r ∈ hit q s o, r.id ≠ id) ∧ ∀ w ∈ opened q s o, w.id ≠ id := by
  have hready := h.ready
  unfold misses at hid
  split at hid
  case h_1 gid rest hphase =>
    rw [Ready, hphase] at hready
    obtain ⟨hrefuses, -⟩ := List.mem_ite_nil_right.1 hid
    refine ⟨fun w hw => absurd hw (hready.1 ▸ List.not_mem_nil), fun r hr => ?_, fun w hw => ?_⟩
    · simp [hit, nextUpdate, hphase] at hr
    · simp only [opened, hphase, List.mem_flatMap, List.mem_filter, Option.mem_toList] at hw
      obtain ⟨g, ⟨hrow, hacts⟩, -⟩ := hw
      rw [refuses, hrow, Option.isNone_some, Bool.false_or] at hrefuses
      obtain ⟨ok, hok, hyes⟩ := (Option.any_eq_true _ _).1 hacts
      rw [hok, Option.any_some, hyes] at hrefuses
      cases hrefuses
  case h_2 target role g rest hphase =>
    rw [Ready, hphase] at hready
    obtain ⟨hmem, hnot⟩ := List.mem_filter.1 hid
    refine ⟨fun w hw hsame => ?_, fun r hr hsame => ?_, fun w hw => ?_⟩
    · exact hready.2.2 w hw (hsame ▸ List.mem_append_left _ hmem)
    · simp only [hit, nextUpdate, hphase, Option.elim_some, List.mem_filter] at hr
      exact of_decide_eq_true hnot (hsame ▸ (mem_of_moves hr.1 hr.2).2)
    · simp [opened, hphase] at hw
  case h_3 g rest hphase =>
    rw [Ready, hphase] at hready
    obtain ⟨hmem, hnot⟩ := List.mem_filter.1 hid
    refine ⟨fun w hw hsame => ?_, fun r hr => ?_, fun w hw => ?_⟩
    · exact hready.2 w hw (hsame ▸ List.mem_flatMap_of_mem List.mem_cons_self hmem)
    · simp [hit, nextUpdate, hphase] at hr
    · simp [opened, hphase] at hw
  case h_4 gid ids rest hphase =>
    rw [Ready, hphase] at hready
    obtain ⟨hnone, hsame⟩ := List.mem_ite_nil_right.1 hid
    obtain rfl := List.mem_singleton.1 hsame
    refine ⟨fun w hw hsame => ?_, fun r hr => ?_, fun w hw => ?_⟩
    · exact hready.2 w hw (hsame ▸ List.mem_append_left _ List.mem_cons_self)
    · simp only [hit, nextUpdate, hphase, Option.elim_some] at hr
      obtain hrefused | hmatched := hnone
      · simp [glacierWrite, hrefused] at hr
      · rw [State.matched, List.map_eq_nil_iff] at hmatched
        rw [hmatched] at hr
        cases hr
    · simp [opened, hphase] at hw
  case h_5 => cases hid

theorem fair_records {w : Write} (h : Records q s o t) :
    Fair q t w ↔ Fair q s w ∧ w.id ∉ misses q s o := by
  rw [Fair, Fair, h.skipped, List.mem_append, not_or, and_right_comm]

/-- A statement stays on fair rows exactly when it is tied to what was read. -/
theorem run_iff (h : Inv s) (hs : TouchesOnlyFair q s) (hreading : ∀ rest, s.phase ≠ .reading rest)
    (hst : s.run accountId q o = some t) : TouchesOnlyFair q t ↔ Tied q s (.run o) := by
  have hrecords := records_run hreading hst
  have hapart := fun id (hid : id ∈ misses q s o) => misses_apart h hid
  constructor
  · intro ht o' ho'
    cases ho'
    refine ⟨fun r hr _ => ?_, fun w hw => ?_, fun w hw => ?_⟩
    · refine ((fair_records hrecords).1 (ht _ (List.mem_append_left _ ?_))).1
      rw [hrecords.log]
      exact List.mem_append_right _ (List.mem_map_of_mem hr)
    · refine ((fair_records hrecords).1 (ht w (List.mem_append_right _ ?_))).1
      rw [hrecords.acted]
      exact List.mem_append_right _ hw
    · refine ((fair_records hrecords).1 (ht w (List.mem_append_right _ ?_))).2
      rw [hrecords.acted]
      exact List.mem_append_left _ hw
  · intro htied w hw
    obtain ⟨hhit, hopened, hacted⟩ := htied o rfl
    rw [fair_records hrecords]
    rw [hrecords.log, hrecords.acted, List.mem_append, List.mem_append, List.mem_append] at hw
    obtain (hw | hw) | hw | hw := hw
    · exact ⟨hs w (List.mem_append_left _ hw), fun hid => (hapart _ hid).1 w hw rfl⟩
    · obtain ⟨r, hr, rfl⟩ := List.mem_map.1 hw
      refine ⟨?_, fun hid => (hapart _ hid).2.1 r hr rfl⟩
      cases hunguarded : unguarded q s r with
      | false => exact fair_of_tied h hs hr hunguarded
      | true => exact hhit r hr hunguarded
    · exact ⟨hs w (List.mem_append_right _ hw), hacted w hw⟩
    · exact ⟨hopened w hw, fun hid => (hapart _ hid).2.2 w hw rfl⟩

theorem step_iff {l : Label} (h : Inv s) (hs : TouchesOnlyFair q s)
    (hst : step accountId q s l = some t) : TouchesOnlyFair q t ↔ Tied q s l := by
  cases l with
  | outside account glacierFolders messages glacier =>
    obtain ⟨-, hsame⟩ := Option.ite_none_right_eq_some.1 hst
    cases hsame
    exact iff_of_true hs fun o ho => by cases ho
  | run o =>
    by_cases hreading : ∃ rest, s.phase = .reading rest
    · obtain ⟨rest, hphase⟩ := hreading
      obtain ⟨hlog, hacted, -⟩ := untouched_of_reading h hphase hst
      have hready := h.ready
      rw [Ready, hphase] at hready
      refine iff_of_true (fun w hw => ?_) fun o' _ => ⟨fun r hr => ?_, fun w hw => ?_, fun w hw => ?_⟩
      · rw [hlog, hacted] at hw
        cases hw
      · simp [hit, nextUpdate, hphase] at hr
      · simp [opened, hphase] at hw
      · exact absurd hw (hready.2.1 ▸ List.not_mem_nil)
    · push Not at hreading
      exact run_iff h hs hreading hst

/-- **A bulk action touches only what it may**, in a run, exactly when every statement that
nothing ties to a message's guard (of one skipped, or unguarded by the scope or a conversation,
or marked read after a move that did not move it, or in the glacier) finds it fair to write. -/
theorem only_fair_touched (account : Account) (glacierFolders : Uuid → Bool) (messages : Messages)
    (glacier : GlacierRows) (ls : List Label)
    (h : (system accountId q).exec (start q account glacierFolders messages glacier) ls = some t) :
    (∀ s ∈ (system accountId q).trail (start q account glacierFolders messages glacier) ls,
        TouchesOnlyFair q s) ↔
      (system accountId q).execMeets (Tied q) (start q account glacierFolders messages glacier) ls =
        true := by
  refine TransitionSystem.trail_iff_execMeets (fun _ _ _ h _ => h.step ‹_›)
    (fun _ _ _ => step_iff) ls ?_ ?_ h
  · exact ⟨fun _ hx => absurd hx List.not_mem_nil, rfl, rfl, List.nodup_nil, List.nodup_nil,
      List.nodup_nil⟩
  · exact fun _ hw => absurd hw List.not_mem_nil

def plainAccount : Account where
  ownsFolder _ := true
  folderRole _ := none
  specialFolder _ := none
  glacierFolder := none
  glacierNow _ := .refused
  maxManualBatch := 100
  markReadOnFile := false
  spamProcessor := false

def oneMessage : Messages :=
  ⟨[⟨10, 1, 6, none, 0, false, false, false, none⟩], List.nodup_singleton 10⟩

/-- The message is marked read by its name, seen in a folder, and by a scope. -/
def markingRead (seenIn : Uuid) (scope : Option BulkActionScope) : BulkRequest where
  action := .markRead
  targetFolderId := none
  ids := [10]
  expandThreads := false
  expandThreadsThrough := none
  expectedFolderIds := [(10, seenIn)]
  scope := scope
  confirmMessageCount := none
  confirm := false

/-- The message is guarded to the folder it is in; someone else files it before the write. -/
def guardedRun : List Label :=
  List.replicate 7 (.run .refused) ++
    [.outside plainAccount (fun _ => false)
      ⟨[⟨10, 1, 7, none, 0, false, false, false, none⟩], List.nodup_singleton 10⟩ KeyedTable.empty,
    .run .refused, .run .refused]

theorem only_fair_touched_guarded :
    ((system 1 (markingRead 6 none)).exec
        (start (markingRead 6 none) plainAccount (fun _ => false) oneMessage KeyedTable.empty)
        guardedRun).isSome = true ∧
      ∀ s ∈ (system 1 (markingRead 6 none)).trail
        (start (markingRead 6 none) plainAccount (fun _ => false) oneMessage KeyedTable.empty)
        guardedRun, TouchesOnlyFair (markingRead 6 none) s := by
  have hruns : ((system 1 (markingRead 6 none)).exec
      (start (markingRead 6 none) plainAccount (fun _ => false) oneMessage KeyedTable.empty)
      guardedRun).isSome = true := by decide +kernel
  obtain ⟨t, ht⟩ := Option.isSome_iff_exists.1 hruns
  exact ⟨hruns, (only_fair_touched _ _ _ _ guardedRun ht).2 (by decide +kernel)⟩

/-- Seen in folder 5 the message is skipped, and written with the scope of folder 6. -/
theorem skipped_message_written :
    ¬∀ q s, (system 1 q).Reachable TransitionSystem.anyStep s → TouchesOnlyFair q s := by
  intro h
  have hruns : (((system 1 (markingRead 5 (some ⟨6, .all, 100, []⟩))).exec
      (start (markingRead 5 (some ⟨6, .all, 100, []⟩)) plainAccount (fun _ => false) oneMessage
        KeyedTable.empty) (List.replicate 9 (.run .refused))).any fun s =>
          !decide (TouchesOnlyFair (markingRead 5 (some ⟨6, .all, 100, []⟩)) s)) = true := by
    decide +kernel
  obtain ⟨s, hexec, hs⟩ := (Option.any_eq_true _ _).1 hruns
  have hfair := h _ s (TransitionSystem.reachable_of_exec_any _ ⟨_, _, _, _, rfl⟩ hexec)
  simp [hfair] at hs

end MailVerdict.Analysis.BulkGuards
