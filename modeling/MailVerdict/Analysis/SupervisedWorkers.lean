import MailVerdict.Model.WorkerSupervisor
import Mathlib.Algebra.Order.BigOperators.Group.List
import Mathlib.Algebra.Order.Ring.Nat

/-!
# The supervisor converges

The tasks stand in the order they were started, so those told to stop are always the oldest
(`Ordered`). A reconcile that starts workers starts as many as the dictionary is short of, those
still retiring counted; one that retires some leaves no more than the target un-retired
(`reconcileOnce_reconciled`). Once those told to stop are gone, what runs is at most the target,
and the next reconcile brings it there (`converges`).
-/

namespace MailVerdict.Analysis.WorkerSupervisor

open MailVerdict.Computation MarkedFront Model.WorkerSupervisor

/-! ## The property -/

def running (s : State) : ℕ := unmarked Worker.stopping s.live

def NoneRetiring (s : State) : Prop := ∀ w ∈ s.live, w.stopping = false

structure Reconciled (s t : State) (ids : List WorkerId) : Prop where
  target : t.target = s.target
  live : t.live = t.tasks
  running_le : running t ≤ t.target
  -- those still retiring count: only what is missing is started
  started : ids.length = t.target - s.live.length
  kept : t.tasks.map Worker.id = s.live.map Worker.id ++ ids
  exact : NoneRetiring t → t.tasks.length = t.target

/-- Who runs is still there afterwards, told to stop if it was before, and where it was in its job
unless it moved itself. -/
def Undisturbed (s t : State) (l : Label) : Prop :=
  ∀ w ∈ s.live, ∃ w' ∈ t.tasks, w'.id = w.id ∧ (w.stopping = true → w'.stopping = true) ∧
    (l.worker ≠ some w.id → w'.body = w.body)

def Steady (s : State) (l : Label) : Prop := FreshIds s l ∧ ∀ n, l ≠ .setTarget n

/-- The ids are distinct and the tasks told to stop are the oldest. -/
structure Ordered (s : State) : Prop where
  distinct : (s.tasks.map Worker.id).Nodup
  oldest : Front Worker.stopping s.tasks

/-! ## One step -/

section Steps

variable {s t : State} {ids : List WorkerId} {id : WorkerId} {l : Label}

theorem Ordered.live (h : Ordered s) : Front Worker.stopping s.live := h.oldest.filter _

theorem ids_retired {k : ℕ} {tasks : List Worker} :
    (markFirst Worker.retire k tasks).map Worker.id = tasks.map Worker.id :=
  map_markFirst fun _ => rfl

theorem spawn_fresh {tasks : List Worker} (hnodup : ids.Nodup)
    (hnew : ∀ id ∈ ids, id ∉ tasks.map Worker.id) :
    ids.foldl spawnOne tasks = tasks ++ ids.map freshWorker := by
  induction ids generalizing tasks with
  | nil => exact (List.append_nil tasks).symm
  | cons id ids ih =>
    obtain ⟨hid, hids⟩ := List.nodup_cons.1 hnodup
    have hmissing : (tasks.any fun w => decide (w.id = id)) = false := by
      rw [List.any_eq_false]
      intro w hw hsame
      exact hnew id List.mem_cons_self (of_decide_eq_true hsame ▸ List.mem_map_of_mem hw)
    have hone : spawnOne tasks id = tasks ++ [freshWorker id] := by
      unfold spawnOne
      rw [hmissing]
      rfl
    rw [List.foldl_cons, hone, ih hids, List.append_assoc]
    · rfl
    · intro id' hid' hmem
      rw [List.map_append, List.mem_append, List.map_singleton, List.mem_singleton] at hmem
      rcases hmem with hmem | rfl
      · exact hnew id' (List.mem_cons_of_mem _ hid') hmem
      · exact hid hid'

theorem reconcileOnce_cases (hfresh : FreshIds s (.reconcile ids))
    (h : reconcileOnce s ids = some t) :
    (ids.length + s.live.length = s.target ∧
      t = { s with tasks := s.live ++ ids.map freshWorker }) ∨
    (ids = [] ∧ s.target ≤ s.live.length ∧
      t = { s with tasks := markFirst Worker.retire (s.live.length - s.target) s.live }) := by
  obtain ⟨hnodup, hnew⟩ := hfresh
  have hnotlive : ∀ id ∈ ids, id ∉ s.live.map Worker.id := fun id hid hmem =>
    hnew id hid ((List.filter_sublist.map Worker.id).subset hmem)
  unfold reconcileOnce at h
  simp only at h
  split at h
  · split at h
    · rename_i hshort hlength
      cases h
      rw [spawn_fresh hnodup hnotlive]
      exact Or.inl ⟨by omega, rfl⟩
    · cases h
  · split at h
    · rename_i hfull hids
      cases h
      have hcount : (-((s.target : ℤ) - s.live.length)).toNat = s.live.length - s.target := by omega
      rw [hcount]
      exact Or.inr ⟨hids, by omega, rfl⟩
    · cases h

theorem onWorker_eq {before : Worker → Bool} {after : Body}
    (h : onWorker s id before after = some t) :
    t = { s with tasks := s.tasks.map fun w =>
      if w.id = id && before w then { w with body := after } else w } := by
  unfold onWorker at h
  split at h
  · exact (Option.some.inj h).symm
  · cases h

theorem onWorker_ordered {before : Worker → Bool} {after : Body} (hs : Ordered s)
    (h : onWorker s id before after = some t) : Ordered t := by
  rw [onWorker_eq h]
  refine ⟨?_, hs.oldest.map fun w => ?_⟩
  · have hids : (s.tasks.map fun w =>
        if w.id = id && before w then { w with body := after } else w).map Worker.id
          = s.tasks.map Worker.id := by
      rw [List.map_map]
      refine List.map_congr_left fun w _ => ?_
      simp only [Function.comp_apply]
      split <;> rfl
    exact hids ▸ hs.distinct
  · split <;> rfl

theorem onWorker_undisturbed {before : Worker → Bool} {after : Body} (hl : l.worker = some id)
    (h : onWorker s id before after = some t) : Undisturbed s t l := by
  rw [onWorker_eq h]
  intro w hw
  refine ⟨_, List.mem_map_of_mem (List.mem_filter.1 hw).1, ?_, ?_, ?_⟩
  · split <;> rfl
  · split <;> exact fun hstop => hstop
  · intro hother
    have hne : w.id ≠ id := fun heq => hother (by rw [hl, heq])
    rw [if_neg (by simp [hne])]

theorem onWorker_running {before : Worker → Bool} {after : Body}
    (hlive : ∀ w, before w = true → w.done = false) (h : onWorker s id before after = some t) :
    running t ≤ running s := by
  rw [onWorker_eq h]
  unfold running unmarked State.live
  simp only [List.countP_filter, List.countP_map]
  refine List.countP_mono_left fun w _ hw => ?_
  simp only [Function.comp_apply] at hw
  split at hw
  · rename_i hbefore
    rw [hlive w (Bool.and_eq_true _ _ ▸ hbefore).2]
    simp only [Bool.and_eq_true] at hw ⊢
    exact ⟨hw.1, rfl⟩
  · exact hw

theorem reconcileOnce_ordered (hs : Ordered s) (hfresh : FreshIds s (.reconcile ids))
    (h : reconcileOnce s ids = some t) : Ordered t := by
  have hkept : (s.live.map Worker.id).Nodup :=
    hs.distinct.sublist (List.filter_sublist.map Worker.id)
  rcases reconcileOnce_cases hfresh h with ⟨-, rfl⟩ | ⟨-, -, rfl⟩
  · constructor
    · have hnew : (ids.map freshWorker).map Worker.id = ids := by
        rw [List.map_map]
        exact List.map_id ids
      rw [List.map_append, hnew, List.nodup_append]
      refine ⟨hkept, hfresh.1, fun a ha b hb hab => ?_⟩
      exact hfresh.2 b hb ((List.filter_sublist.map Worker.id).subset (hab ▸ ha))
    · refine hs.live.append fun w hw => ?_
      obtain ⟨id, -, rfl⟩ := List.mem_map.1 hw
      rfl
  · constructor
    · change ((markFirst Worker.retire _ s.live).map Worker.id).Nodup
      rw [ids_retired]
      exact hkept
    · exact hs.live.markFirst fun _ => rfl

theorem reconcileOnce_undisturbed (hfresh : FreshIds s (.reconcile ids))
    (h : reconcileOnce s ids = some t) : Undisturbed s t (.reconcile ids) := by
  intro w hw
  rcases reconcileOnce_cases hfresh h with ⟨-, rfl⟩ | ⟨-, -, rfl⟩
  · exact ⟨w, List.mem_append_left _ hw, rfl, id, fun _ => rfl⟩
  · rcases mem_markFirst hw with hmarked | hsame
    · exact ⟨w.retire, hmarked, rfl, fun _ => rfl, fun _ => rfl⟩
    · exact ⟨w, hsame, rfl, id, fun _ => rfl⟩

theorem reconcileOnce_live (hfresh : FreshIds s (.reconcile ids))
    (h : reconcileOnce s ids = some t) : t.live = t.tasks := by
  have hlive : ∀ w ∈ s.live, (!w.done) = true := fun w hw => (List.mem_filter.1 hw).2
  rcases reconcileOnce_cases hfresh h with ⟨-, rfl⟩ | ⟨-, -, rfl⟩
  · refine List.filter_eq_self.2 fun w hw => ?_
    rcases List.mem_append.1 hw with hold | hnew
    · exact hlive w hold
    · obtain ⟨id, -, rfl⟩ := List.mem_map.1 hnew
      rfl
  · refine List.filter_eq_self.2 fun w hw => ?_
    rcases List.mem_append.1 hw with hfirst | hrest
    · obtain ⟨w', hw', rfl⟩ := List.mem_map.1 hfirst
      exact hlive w' (List.mem_of_mem_take hw')
    · exact hlive w (List.mem_of_mem_drop hrest)

theorem reconcileOnce_running_le (hs : Ordered s) (hfresh : FreshIds s (.reconcile ids))
    (h : reconcileOnce s ids = some t) : unmarked Worker.stopping t.tasks ≤ t.target := by
  rcases reconcileOnce_cases hfresh h with ⟨hcount, rfl⟩ | ⟨-, hfull, rfl⟩
  · calc unmarked Worker.stopping (s.live ++ ids.map freshWorker)
        ≤ (s.live ++ ids.map freshWorker).length := unmarked_le_length
      _ = s.target := by rw [List.length_append, List.length_map]; omega
  · calc unmarked Worker.stopping (markFirst Worker.retire (s.live.length - s.target) s.live)
        = min (unmarked Worker.stopping s.live)
            (s.live.length - (s.live.length - s.target)) :=
          unmarked_markFirst hs.live fun _ => rfl
      _ ≤ s.live.length - (s.live.length - s.target) := min_le_right _ _
      _ = s.target := by omega

theorem reconcileOnce_exact (hfresh : FreshIds s (.reconcile ids))
    (h : reconcileOnce s ids = some t) (hle : unmarked Worker.stopping t.tasks ≤ t.target)
    (hnone : ∀ w ∈ t.tasks, w.stopping = false) : t.tasks.length = t.target := by
  rw [unmarked_eq_length hnone] at hle
  refine le_antisymm hle ?_
  rcases reconcileOnce_cases hfresh h with ⟨hcount, rfl⟩ | ⟨-, hfull, rfl⟩
  · change s.target ≤ (s.live ++ ids.map freshWorker).length
    rw [List.length_append, List.length_map]
    omega
  · rw [length_markFirst]
    exact hfull

/-- **What a reconcile makes of a state.** -/
theorem reconcileOnce_reconciled (hs : Ordered s) (hfresh : FreshIds s (.reconcile ids))
    (h : reconcileOnce s ids = some t) : Reconciled s t ids := by
  have hlive := reconcileOnce_live hfresh h
  have hle := reconcileOnce_running_le hs hfresh h
  refine ⟨?_, hlive, ?_, ?_, ?_, ?_⟩
  · rcases reconcileOnce_cases hfresh h with ⟨-, rfl⟩ | ⟨-, -, rfl⟩ <;> rfl
  · unfold running
    rw [hlive]
    exact hle
  · rcases reconcileOnce_cases hfresh h with ⟨hcount, rfl⟩ | ⟨rfl, hfull, rfl⟩
    · exact (Nat.sub_eq_of_eq_add hcount.symm).symm
    · exact (Nat.sub_eq_zero_of_le hfull).symm
  · rcases reconcileOnce_cases hfresh h with ⟨-, rfl⟩ | ⟨rfl, -, rfl⟩
    · rw [List.map_append, List.map_map]
      exact congrArg _ (List.map_id ids)
    · rw [List.append_nil]
      exact ids_retired
  · intro hnone
    exact reconcileOnce_exact hfresh h hle fun w hw => hnone w (by rw [hlive]; exact hw)

/-! ## Every step -/

theorem step_ordered (hs : Ordered s) (hfresh : FreshIds s l) (h : step s l = some t) :
    Ordered t := by
  cases l with
  | setTarget n => cases h; exact ⟨hs.distinct, hs.oldest⟩
  | reconcile ids => exact reconcileOnce_ordered hs hfresh h
  | take id | put id => exact onWorker_ordered hs h
  | leave id raised => cases raised <;> exact onWorker_ordered hs h

theorem step_undisturbed (hfresh : FreshIds s l) (h : step s l = some t) : Undisturbed s t l := by
  cases l with
  | setTarget n =>
    cases h
    exact fun w hw => ⟨w, (List.mem_filter.1 hw).1, rfl, id, fun _ => rfl⟩
  | reconcile ids => exact reconcileOnce_undisturbed hfresh h
  | take id | put id => exact onWorker_undisturbed rfl h
  | leave id raised => cases raised <;> exact onWorker_undisturbed rfl h

theorem step_running (hs : Ordered s) (hsteady : Steady s l) (hle : running s ≤ s.target)
    (h : step s l = some t) : running t ≤ t.target ∧ t.target = s.target := by
  have hone : ∀ {id : WorkerId} {before : Worker → Bool} {after : Body},
      (∀ w, before w = true → w.done = false) → onWorker s id before after = some t →
      running t ≤ t.target ∧ t.target = s.target := by
    intro id before after hlive hw
    have hsame : t.target = s.target := by rw [onWorker_eq hw]
    exact ⟨hsame ▸ (onWorker_running hlive hw).trans hle, hsame⟩
  cases l with
  | setTarget n => exact absurd rfl (hsteady.2 n)
  | reconcile ids =>
    have hdone := reconcileOnce_reconciled hs hsteady.1 h
    exact ⟨hdone.running_le, hdone.target⟩
  | take id | put id => exact hone (fun w hw => by simp_all [Worker.done]) h
  | leave id raised =>
    cases raised with
    | true => exact hone (fun w hw => by simpa using hw) h
    | false => exact hone (fun w hw => by simp_all [Worker.done]) h

end Steps

/-! ## Every run -/

section Runs

variable {concurrency : ℤ} {s t u v : State} {ids : List WorkerId}

theorem ordered_of_reachable (h : (system concurrency).Reachable FreshIds s) : Ordered s :=
  h.invariant
    (fun s hs => by
      rw [show s = initial concurrency from hs]
      exact ⟨List.nodup_nil, List.Pairwise.nil⟩)
    (fun _ _ _ hs hfresh hstep => step_ordered hs hfresh hstep)

theorem run_running (ht : Ordered t) (hle : running t ≤ t.target)
    (h : (system concurrency).Run Steady t u) :
    Ordered u ∧ running u ≤ u.target ∧ u.target = t.target :=
  h.preserves (I := fun u => Ordered u ∧ running u ≤ u.target ∧ u.target = t.target)
    (fun _ _ _ ⟨hordered, hrun, htarget⟩ hsteady hstep => by
      obtain ⟨hrun', htarget'⟩ := step_running hordered hsteady hrun hstep
      exact ⟨step_ordered hordered hsteady.1 hstep, hrun', htarget'.trans htarget⟩)
    ⟨ht, hle, rfl⟩

theorem none_retiring_of_reconcile (hnone : NoneRetiring u) (hle : running u ≤ u.target)
    (hfresh : FreshIds u (.reconcile ids)) (h : reconcileOnce u ids = some v) :
    NoneRetiring v := by
  have hlength : u.live.length ≤ u.target := by
    rw [← unmarked_eq_length hnone]
    exact hle
  have htasks : ∀ w ∈ v.tasks, w.stopping = false := by
    rcases reconcileOnce_cases hfresh h with ⟨-, rfl⟩ | ⟨-, -, rfl⟩
    · intro w hw
      rcases List.mem_append.1 hw with hold | hnew
      · exact hnone w hold
      · obtain ⟨id, -, rfl⟩ := List.mem_map.1 hnew
        rfl
    · rw [Nat.sub_eq_zero_of_le hlength, markFirst_zero]
      exact hnone
  exact fun w hw => htasks w (List.mem_filter.1 hw).1

theorem exists_reconcile (s : State) :
    ∃ ids t, FreshIds s (.reconcile ids) ∧ step s (.reconcile ids) = some t := by
  obtain ⟨top, htop⟩ : ∃ top, ∀ id ∈ s.tasks.map Worker.id, id < top :=
    ⟨(s.tasks.map Worker.id).sum + 1, fun id hid =>
      Nat.lt_succ_of_le (List.le_sum_of_mem hid)⟩
  refine ⟨List.range' top (s.target - s.live.length), ?_⟩
  have hfresh : FreshIds s (.reconcile (List.range' top (s.target - s.live.length))) := by
    refine ⟨List.nodup_range', fun id hid hmem => ?_⟩
    exact absurd (htop id hmem) (not_lt_of_ge (List.mem_range'_1.1 hid).1)
  have hsome : (reconcileOnce s (List.range' top (s.target - s.live.length))).isSome := by
    unfold reconcileOnce
    simp only
    by_cases hshort : s.live.length < s.target
    · rw [if_pos (by omega), if_pos (by rw [List.length_range']; omega)]
      rfl
    · rw [if_neg (by omega), if_pos (by rw [Nat.sub_eq_zero_of_le (by omega)]; rfl)]
      rfl
  obtain ⟨t, ht⟩ := Option.isSome_iff_exists.1 hsome
  exact ⟨t, hfresh, ht⟩

/-- **The supervisor converges.** -/
theorem converges (h : (system concurrency).Reachable FreshIds s) :
    (s.tasks.map Worker.id).Nodup ∧
    (∀ l t, FreshIds s l → step s l = some t → Undisturbed s t l) ∧
    (∃ ids t, FreshIds s (.reconcile ids) ∧ step s (.reconcile ids) = some t) ∧
    ∀ ids t, FreshIds s (.reconcile ids) → step s (.reconcile ids) = some t →
      Reconciled s t ids ∧
      ∀ u, (system concurrency).Run Steady t u → NoneRetiring u →
        ∀ ids v, FreshIds u (.reconcile ids) → step u (.reconcile ids) = some v →
          v.live = v.tasks ∧ v.tasks.length = s.target ∧ NoneRetiring v := by
  have hs := ordered_of_reachable h
  refine ⟨hs.distinct, fun l t hfresh hstep => step_undisturbed hfresh hstep, exists_reconcile s, ?_⟩
  intro ids t hfresh hstep
  have hdone := reconcileOnce_reconciled hs hfresh hstep
  refine ⟨hdone, fun u hrun hnone ids' v hfresh' hstep' => ?_⟩
  obtain ⟨hu, hle, htarget⟩ :=
    run_running (step_ordered hs hfresh hstep) hdone.running_le hrun
  have hnone' := none_retiring_of_reconcile hnone hle hfresh' hstep'
  have hdone' := reconcileOnce_reconciled hu hfresh' hstep'
  have hgoal : v.target = s.target :=
    hdone'.target.trans (htarget.trans hdone.target)
  exact ⟨hdone'.live, hgoal ▸ hdone'.exact hnone', hnone'⟩

/-- The target went from two to one and back while the first worker was in a job. -/
def busy : State := ⟨2, [⟨0, true, .working⟩, ⟨1, false, .waiting⟩]⟩

theorem busy_reachable : (system 2).Reachable FreshIds busy :=
  TransitionSystem.reachable_of_exec
    [.reconcile [0, 1], .take 0, .setTarget 1, .reconcile [], .setTarget 2] rfl (by decide) rfl

/-- The retiring worker still counts, so nobody is started; once it is gone, one is. -/
theorem converges_busy :
    Undisturbed busy busy (.reconcile []) ∧ Reconciled busy busy [] ∧
    (⟨2, [freshWorker 1, freshWorker 2]⟩ : State).tasks.length = busy.target ∧
    NoneRetiring ⟨2, [freshWorker 1, freshWorker 2]⟩ := by
  obtain ⟨-, hundisturbed, -, hreconcile⟩ := converges busy_reachable
  obtain ⟨hdone, hlater⟩ := hreconcile [] busy (by decide) (by decide)
  have hput : (system 2).Run Steady busy ⟨2, [⟨0, true, .waiting⟩, ⟨1, false, .waiting⟩]⟩ :=
    .step (l := .put 0) .refl ⟨trivial, fun _ h => by cases h⟩ (by decide)
  have hleft : (system 2).Run Steady busy ⟨2, [⟨0, true, .returned⟩, ⟨1, false, .waiting⟩]⟩ :=
    .step (l := .leave 0 false) hput ⟨trivial, fun _ h => by cases h⟩ (by decide)
  obtain ⟨-, hlength, hnone⟩ :=
    hlater _ hleft (by unfold NoneRetiring; decide) [2] ⟨2, [freshWorker 1, freshWorker 2]⟩
      (by decide) (by decide)
  exact ⟨hundisturbed _ _ (by decide) (by decide), hdone, hlength, hnone⟩

end Runs

end MailVerdict.Analysis.WorkerSupervisor
