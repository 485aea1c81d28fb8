import Mathlib.Data.Prod.Lex
import MailVerdict.Computation.CopyMerge
import MailVerdict.Model.IntentLedger

/-!
# The ledger merge is a join

`outranks` compares generation, state rank and time of the last change, in that order
(`Standing`), so `mergeIntents` is the merge of `Computation.CopyMerge`
(`mergeIntents_eq`). What that library says of foldings is then said of ledgers: tabs come to
the same intents in whatever order they merge (`merge_is_join`).
-/

namespace MailVerdict.Analysis.LedgerJoin

open Computation.CopyMerge
open Model.MailActions Model.MailIntents Model.IntentLedger
open Model.LedgerMerge

abbrev Standing := ℕ ×ₗ ℕ ×ₗ Time

def standing (i : MailIntent) : Standing :=
  toLex (i.generation, toLex (stateRank i.state, i.updatedAt))

theorem outranks_iff (a b : MailIntent) : outranks a b = true ↔ standing b < standing a := by
  unfold outranks standing
  rw [Prod.Lex.toLex_lt_toLex, Prod.Lex.toLex_lt_toLex]
  split
  · next hgeneration =>
    simp [Ne.symm hgeneration]
  · next hgeneration =>
    have hgen : a.generation = b.generation := not_not.1 hgeneration
    split
    · next hrank => simp [hgen, Ne.symm hrank]
    · next hrank =>
      have hsame : stateRank a.state = stateRank b.state := not_not.1 hrank
      simp [hgen, hsame]

theorem byCreation_iff (a b : MailIntent) :
    byCreation a b ↔ toLex (a.createdAt, a.id) ≤ toLex (b.createdAt, b.id) := by
  rw [Prod.Lex.toLex_le_toLex]
  rfl

instance : Std.Total byCreation where
  total a b := by
    rw [byCreation_iff, byCreation_iff]
    exact le_total _ _

instance : IsTrans MailIntent byCreation where
  trans a b c hab hbc := by
    rw [byCreation_iff] at *
    exact hab.trans hbc

theorem byCreation_antisymm (a b : MailIntent) (hab : byCreation a b) (hba : byCreation b a) :
    a.id = b.id := by
  rw [byCreation_iff] at hab hba
  exact congrArg (fun x => (ofLex x).2) (le_antisymm hab hba)

theorem mergeStep_eq (retired : Finset IntentId) (merged : List MailIntent) (i : MailIntent) :
    mergeStep retired merged i =
      if i.id ∈ retired then merged else put MailIntent.id standing merged i := by
  unfold mergeStep
  split
  · rfl
  · unfold put setIntent
    cases hfind : merged.find? fun x => decide (x.id = i.id) with
    | none =>
      have hnone : (merged.any fun x => decide (x.id = i.id)) = false := by
        simpa [List.find?_eq_none] using hfind
      simp [hnone]
    | some held =>
      have hsome : (merged.any fun x => decide (x.id = i.id)) = true := by
        rw [List.any_eq_true]
        exact ⟨held, List.mem_of_find?_eq_some hfind, by simpa using List.find?_some hfind⟩
      simp [hsome, outranks_iff]

theorem foldl_mergeStep (retired : Finset IntentId) (l merged : List MailIntent) :
    l.foldl (mergeStep retired) merged =
      (l.filter fun i => decide (i.id ∉ retired)).foldl (put MailIntent.id standing) merged := by
  induction l generalizing merged with
  | nil => rfl
  | cons i l ih =>
    rw [List.foldl_cons, mergeStep_eq, ih, List.filter_cons]
    by_cases hretired : i.id ∈ retired
    · simp [hretired]
    · simp [hretired]

/-- **`mergeIntents` is the merge of copies.** -/
theorem mergeIntents_eq (ours theirs : List MailIntent) (retired : Finset IntentId) :
    mergeIntents ours theirs retired =
      Folding.mergeItems MailIntent.id standing byCreation retired ours theirs := by
  rw [mergeIntents, foldl_mergeStep]
  rfl

/-! ## Foldings of ledger copies -/

/-- Ledger copies merged two at a time with `mergeIntents`; the ids retired for either stay
retired. -/
def fold : Folding MailIntent IntentId → Copy MailIntent IntentId
  | .copy c => c
  | .merge l r =>
    { items := mergeIntents (fold l).items (fold r).items ((fold l).gone ∪ (fold r).gone)
      gone := (fold l).gone ∪ (fold r).gone }

theorem fold_eq (f : Folding MailIntent IntentId) :
    fold f = f.eval MailIntent.id standing byCreation := by
  induction f with
  | copy c => rfl
  | merge l r hl hr => rw [fold, hl, hr, mergeIntents_eq, Folding.eval]

/-! ## The join -/

def Settled (i : MailIntent) : Prop := i.state = .done ∨ i.state = .failed

theorem settled_iff (i : MailIntent) : Settled i ↔ 2 ≤ stateRank i.state := by
  unfold Settled
  cases i.state <;> decide

theorem le_of_generation_eq {i m : MailIntent} (hle : standing i ≤ standing m)
    (hgeneration : i.generation = m.generation) : stateRank i.state ≤ stateRank m.state := by
  unfold standing at hle
  rw [Prod.Lex.toLex_le_toLex, Prod.Lex.toLex_le_toLex] at hle
  obtain hlt | ⟨-, hlt | ⟨heq, -⟩⟩ := hle
  · exact absurd hlt (by rw [hgeneration]; exact lt_irrefl _)
  · exact Nat.le_of_lt hlt
  · exact Nat.le_of_eq heq

/-- What a merged ledger is to the copies it was merged from. -/
structure Joined (f : Folding MailIntent IntentId) : Prop where
  origin : ∀ m ∈ (fold f).items, ∃ c ∈ f.copies, m ∈ c.items
  once : ((fold f).items.map MailIntent.id).Nodup
  above : ∀ m ∈ (fold f).items, ∀ c ∈ f.copies, ∀ i ∈ c.items, i.id = m.id →
    standing i ≤ standing m
  retired : ∀ m ∈ (fold f).items, ∀ c ∈ f.copies, m.id ∉ c.gone
  kept : ∀ c ∈ f.copies, ∀ i ∈ c.items, (∀ d ∈ f.copies, i.id ∉ d.gone) →
    ∃ m ∈ (fold f).items, m.id = i.id
  settled : ∀ m ∈ (fold f).items, ∀ c ∈ f.copies, ∀ i ∈ c.items, i.id = m.id →
    i.generation = m.generation → Settled i → Settled m

section Join

variable {a b : Folding MailIntent IntentId}

theorem joined_merge (hconsistent : Consistent MailIntent.id standing (Folding.merge a b).all) :
    Joined (.merge a b) := by
  have hmem : ∀ m, m ∈ (fold (.merge a b)).items ↔ m.id ∉ (Folding.merge a b).allGone ∧
      Best MailIntent.id standing (Folding.merge a b).all m := fun m => by
    rw [fold_eq]
    exact Folding.mem_eval_merge hconsistent
  have habove : ∀ m ∈ (fold (.merge a b)).items, ∀ c ∈ (Folding.merge a b).copies,
      ∀ i ∈ c.items, i.id = m.id → standing i ≤ standing m := fun m hm c hc i hi hid =>
    ((hmem m).1 hm).2.above i (Folding.mem_all.2 ⟨c, hc, hi⟩) hid
  refine ⟨fun m hm => ?_, ?_, habove, fun m hm c hc hgone => ?_, fun c hc i hi hgone => ?_,
    fun m hm c hc i hi hid hgeneration hsettled => ?_⟩
  · exact Folding.mem_all.1 ((hmem m).1 hm).2.mem
  · rw [fold_eq]
    exact Folding.nodup_eval_merge
  · exact ((hmem m).1 hm).1 (Folding.mem_allGone.2 ⟨c, hc, hgone⟩)
  · have hunretired : i.id ∉ (Folding.merge a b).allGone := fun hretired => by
      obtain ⟨d, hd, hdgone⟩ := Folding.mem_allGone.1 hretired
      exact hgone d hd hdgone
    rw [fold_eq]
    exact Folding.exists_mem_eval_merge hconsistent (Folding.mem_all.2 ⟨c, hc, hi⟩) hunretired
  · have hle := le_of_generation_eq (habove m hm c hc i hi hid) hgeneration
    exact (settled_iff m).2 (((settled_iff i).1 hsettled).trans hle)

theorem fold_eq_of_copies {a' b' : Folding MailIntent IntentId}
    (hcopies : ∀ c, c ∈ (Folding.merge a b).copies ↔ c ∈ (Folding.merge a' b').copies)
    (hconsistent : Consistent MailIntent.id standing (Folding.merge a b).all) :
    fold (.merge a b) = fold (.merge a' b') := by
  rw [fold_eq, fold_eq]
  exact Folding.eval_eq byCreation_antisymm hcopies hconsistent

theorem merge_self_perm {c : Copy MailIntent IntentId} (hnodup : (c.items.map MailIntent.id).Nodup)
    (hunretired : ∀ i ∈ c.items, i.id ∉ c.gone) :
    (fold (.merge (.copy c) (.copy c))).items.Perm c.items := by
  have hall : ∀ i, i ∈ (Folding.merge (.copy c) (.copy c)).all ↔ i ∈ c.items := fun i => by
    simp [Folding.all, Folding.copies]
  have hgone : ∀ id, id ∈ (Folding.merge (.copy c) (.copy c)).allGone ↔ id ∈ c.gone := fun id => by
    simp [Folding.allGone]
  have hsame : ∀ i ∈ c.items, ∀ j ∈ c.items, i.id = j.id → i = j := fun i hi j hj =>
    List.inj_on_of_nodup_map hnodup hi hj
  have hconsistent : Consistent MailIntent.id standing
      (Folding.merge (.copy c) (.copy c)).all := fun i hi j hj hid _ =>
    hsame i ((hall i).1 hi) j ((hall j).1 hj) hid
  rw [fold_eq]
  refine (List.perm_ext_iff_of_nodup Folding.nodup_eval_merge.of_map hnodup.of_map).2 fun i => ?_
  rw [Folding.mem_eval_merge hconsistent, hgone]
  constructor
  · rintro ⟨-, hbest⟩
    exact (hall i).1 hbest.mem
  · intro hi
    refine ⟨hunretired i hi, (hall i).2 hi, fun j hj hid => ?_⟩
    rw [hsame j ((hall j).1 hj) i hi hid]

/-- **The ledger merge is a join.** Copies folded in any order and grouping come to the same
ledger; merging in copies that were merged already changes nothing, nor does merging a copy
with itself; and what is merged is `Joined`. -/
theorem merge_is_join (a b : Folding MailIntent IntentId)
    (hconsistent : Consistent MailIntent.id standing (Folding.merge a b).all) :
    (∀ g : Folding MailIntent IntentId, g.copies.Perm (Folding.merge a b).copies →
      fold g = fold (.merge a b)) ∧
    (∀ g : Folding MailIntent IntentId, g.copies ⊆ (Folding.merge a b).copies →
      fold (.merge (.merge a b) g) = fold (.merge a b)) ∧
    (∀ c ∈ (Folding.merge a b).copies, (c.items.map MailIntent.id).Nodup →
      (∀ i ∈ c.items, i.id ∉ c.gone) → (fold (.merge (.copy c) (.copy c))).items.Perm c.items) ∧
    Joined (.merge a b) := by
  refine ⟨fun g hperm => ?_, fun g hsub => ?_, fun c _ hnodup hunretired =>
    merge_self_perm hnodup hunretired, joined_merge hconsistent⟩
  · cases g with
    | copy c =>
      have hlength := hperm.length_eq
      have hleft := Folding.copies_length_pos a
      have hright := Folding.copies_length_pos b
      simp only [Folding.copies, List.length_append, List.length_singleton] at hlength
      omega
    | merge l r =>
      exact (fold_eq_of_copies (fun c => hperm.symm.mem_iff) hconsistent).symm
  · refine (fold_eq_of_copies (fun c => ⟨fun hc => ?_, fun hc => ?_⟩) hconsistent).symm
    · exact List.mem_append_left _ hc
    · obtain hc | hc := List.mem_append.1 hc
      · exact hc
      · exact hsub hc

end Join

def sent (id : IntentId) (state : IntentState) (updatedAt : Time) : MailIntent where
  id := id
  accountId := 1
  action := .archive
  messages := []
  bulk := false
  createdAt := 0
  state := state
  attempts := 1
  notBefore := 0
  generation := 0
  updatedAt := updatedAt

/-- One tab has an answer, another still waits and has retired a second intent. -/
def answered : Copy MailIntent IntentId := ⟨[sent 1 .done 20, sent 2 .done 5], ∅⟩

def waiting : Copy MailIntent IntentId := ⟨[sent 1 .inflight 30], {2}⟩

theorem merge_is_join_waiting :
    (fold (.merge (.copy answered) (.copy waiting))).items = [sent 1 .done 20] ∧
    fold (.merge (.copy waiting) (.copy answered)) =
      fold (.merge (.copy answered) (.copy waiting)) ∧
    Joined (.merge (.copy answered) (.copy waiting)) := by
  have hconsistent : Consistent MailIntent.id standing
      (Folding.merge (.copy answered) (.copy waiting)).all := by
    unfold Consistent
    decide +kernel
  obtain ⟨horder, -, -, hjoined⟩ := merge_is_join (.copy answered) (.copy waiting) hconsistent
  refine ⟨by decide +kernel, horder _ ?_, hjoined⟩
  exact List.perm_append_comm

/-! ## Tabs -/

def copyOf (h : Holding) : Copy MailIntent IntentId := ⟨h.intents, h.retiredIds⟩

/-- What a tab holds once it has taken in stored ledgers, each at its time. -/
def absorbAll (own : Holding) (taken : List (Time × Holding)) : Holding :=
  taken.foldl (fun held e => absorb e.1 held e.2) own

/-- No ledger is taken in so late that an id it has retired is forgotten. -/
def Remembered (taken : List (Time × Holding)) : Prop :=
  ∀ e ∈ taken, ∀ r ∈ e.2.retired, e.1 < r.2 + retiredMemoryMs

def foldIn (f : Folding MailIntent IntentId) (taken : List (Time × Holding)) :
    Folding MailIntent IntentId :=
  taken.foldl (fun f e => .merge f (.copy (copyOf e.2))) f

theorem copies_foldIn (f : Folding MailIntent IntentId) (taken : List (Time × Holding)) :
    (foldIn f taken).copies = f.copies ++ (taken.map Prod.snd).map copyOf := by
  unfold foldIn
  induction taken generalizing f with
  | nil => simp
  | cons e taken ih => simp [ih, Folding.copies]

theorem foldIn_merge (f : Folding MailIntent IntentId) {taken : List (Time × Holding)}
    (h : taken ≠ []) : ∃ a b, foldIn f taken = .merge a b := by
  obtain ⟨l, e, rfl⟩ := (List.eq_nil_or_concat' taken).resolve_left h
  exact ⟨foldIn f l, .copy (copyOf e.2), List.foldl_concat ..⟩

/-- What a tab takes over from the store is the join of the two copies. -/
theorem copyOf_absorb {now : Time} {own stored : Holding}
    (h : ∀ r ∈ stored.retired, now < r.2 + retiredMemoryMs) :
    copyOf (absorb now own stored) =
      fold (.merge (.copy (copyOf own)) (.copy (copyOf stored))) := by
  have hids : (absorb now own stored).retiredIds = own.retiredIds ∪ stored.retiredIds := by
    ext id
    simp only [absorb, Holding.retiredIds, List.map_append, List.toFinset_append,
      Finset.mem_union, List.mem_toFinset, List.mem_map, List.mem_filter]
    grind
  rw [fold, fold, fold, copyOf, hids, copyOf, copyOf, ← hids]
  rfl

/-- What is written over a stored ledger is the join of the two as well. -/
theorem copyOf_write {now : Time} {own stored : Holding}
    (hown : ∀ r ∈ own.retired, now < r.2 + retiredMemoryMs)
    (hstored : ∀ r ∈ stored.retired, now < r.2 + retiredMemoryMs) :
    copyOf (write now own (some stored)) =
      fold (.merge (.copy (copyOf own)) (.copy (copyOf stored))) := by
  have hyoung : (own.retired.filter fun e => decide (now < e.2 + retiredMemoryMs)) = own.retired :=
    List.filter_eq_self.2 fun r hr => decide_eq_true (hown r hr)
  rw [write, hyoung]
  exact copyOf_absorb hstored

theorem copyOf_absorbAll {taken : List (Time × Holding)} (h : Remembered taken) {own : Holding}
    {f : Folding MailIntent IntentId} (hf : copyOf own = fold f) :
    copyOf (absorbAll own taken) = fold (foldIn f taken) := by
  induction taken generalizing own f with
  | nil => exact hf
  | cons e taken ih =>
    obtain ⟨he, hrest⟩ := List.forall_mem_cons.1 h
    refine ih hrest ?_
    rw [copyOf_absorb he, fold, fold, hf]
    rfl

/-- **Tabs converge.** Two tabs that have taken in the same ledgers, their own among them, in
whatever order and however often, hold the same intents and remember the same retired ids. -/
theorem tabs_converge {own own' : Holding} {taken taken' : List (Time × Holding)}
    (htaken : taken ≠ [] ∧ taken' ≠ []) (hkept : Remembered taken ∧ Remembered taken')
    (hsame : ∀ h, h ∈ own :: taken.map Prod.snd ↔ h ∈ own' :: taken'.map Prod.snd)
    (hconsistent : Consistent MailIntent.id standing
      ((own :: taken.map Prod.snd).flatMap Holding.intents)) :
    copyOf (absorbAll own taken) = copyOf (absorbAll own' taken') := by
  have hleft := copies_foldIn (.copy (copyOf own)) taken
  have hright := copies_foldIn (.copy (copyOf own')) taken'
  rw [copyOf_absorbAll hkept.1 (f := .copy (copyOf own)) rfl,
    copyOf_absorbAll hkept.2 (f := .copy (copyOf own')) rfl]
  obtain ⟨a, b, hab⟩ := foldIn_merge (.copy (copyOf own)) htaken.1
  obtain ⟨a', b', hab'⟩ := foldIn_merge (.copy (copyOf own')) htaken.2
  rw [hab, Folding.copies, List.singleton_append, ← List.map_cons] at hleft
  rw [hab', Folding.copies, List.singleton_append, ← List.map_cons] at hright
  rw [hab, hab']
  refine fold_eq_of_copies (fun c => ?_) ?_
  · rw [hleft, hright, List.mem_map, List.mem_map]
    exact exists_congr fun h => and_congr_left fun _ => hsame h
  · rwa [Folding.all, hleft, List.flatMap_map]

def late : Holding := ⟨[sent 1 .inflight 30], [(2, 0)]⟩

def fresh : Holding := ⟨[sent 1 .done 20, sent 2 .done 5], []⟩

theorem tabs_converge_late :
    copyOf (absorbAll late [(40, fresh)]) =
      copyOf (absorbAll fresh [(50, late), (60, fresh)]) := by
  refine tabs_converge (by simp) (by simp [Remembered, late, fresh, retiredMemoryMs])
    (fun h => by grind) ?_
  unfold Consistent
  decide +kernel

end MailVerdict.Analysis.LedgerJoin
