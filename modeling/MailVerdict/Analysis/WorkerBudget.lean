import MailVerdict.Model.QueueManager

/-!
# The workers and the pool

What the calls write is checked under the lock, so the rows never promise more than the budget
(`Checked`). The targets follow the rows one call at a time: a call that sets its target while
another one's lower row is not applied yet adds to a worker that is still there, and a call that
sets what it read before another one wrote leaves a target nobody asked for last. Where neither
happens (`InStep`), the targets stay below the rows and end on them.
-/

namespace MailVerdict.Analysis.WorkerBudget

open MailVerdict.Computation SharedBudget Model.QueueManager

variable {pool : Pool} {s t : State} {l : Label}

def running (pool : Pool) (s : State) : ℕ := total pool.registered s.target

def promised (pool : Pool) (rows : Name → QueueStateRow) : ℕ :=
  total pool.registered fun name => (rows name).target

def StillSays (s : State) : Call → Prop
  | .applying name row => row.target = (s.rows name).target
  | .reading _ => True

/-- A call sets a target to what the row still says, when no other supervisor is above its own
row; and no call fails before it has applied what is not applied yet. -/
def InStep (pool : Pool) (s : State) : Label → Prop
  | .setTarget k => ∀ c ∈ s.call k, StillSays s c ∧
      ∀ name ∈ pool.registered, name ≠ c.name → s.target name ≤ (s.rows name).target
  | .fails k => ∀ c ∈ s.call k, s.target c.name = (s.rows c.name).target
  | _ => True

instance (s : State) (c : Call) : Decidable (StillSays s c) := by
  cases c <;> unfold StillSays <;> infer_instance

instance (pool : Pool) (s : State) (l : Label) : Decidable (InStep pool s l) := by
  cases l <;> unfold InStep <;> infer_instance

def Returned (s : State) : Prop := ∀ k, s.call k = none

/-! ## What `start` grants -/

theorem total_startTargets (rows : Name → QueueStateRow) {names : List Name}
    (hnodup : names.Nodup) (budget : ℤ) :
    (total names (startTargets rows names budget) : ℤ) ≤ max budget 0 := by
  induction names generalizing budget with
  | nil => exact le_max_right _ _
  | cons m rest ih =>
    obtain ⟨hm, hrest⟩ := List.nodup_cons.1 hnodup
    rw [startTargets, total_cons_update hm]
    push_cast
    split
    · have hrest := ih hrest (budget - (budget.toNat : ℤ))
      omega
    · have hrest := ih hrest (budget - ((rows m).target : ℤ))
      omega

theorem startTargets_eq (rows : Name → QueueStateRow) {names : List Name} (hnodup : names.Nodup)
    {budget : ℤ} (hfits : (total names (fun name => (rows name).target) : ℤ) ≤ budget)
    {name : Name} (hname : name ∈ names) :
    startTargets rows names budget name = (rows name).target := by
  induction names generalizing budget with
  | nil => cases hname
  | cons m rest ih =>
    obtain ⟨hm, hrest⟩ := List.nodup_cons.1 hnodup
    rw [total, List.map_cons, List.sum_cons] at hfits
    have hfirst : ¬ budget < ((rows m).target : ℤ) := by
      rw [Int.natCast_add] at hfits
      omega
    rw [startTargets, if_neg hfirst]
    obtain rfl | hin := List.mem_cons.1 hname
    · exact Function.update_self _ _ _
    · have hne : name ≠ m := by
        rintro rfl
        exact hm hin
      rw [Function.update_of_ne hne]
      refine ih hrest ?_ hin
      rw [total]
      push_cast at hfits ⊢
      omega

/-! ## What a call writes -/

theorem targets_update (rows : Name → QueueStateRow) (name : Name) (row : QueueStateRow) :
    (fun m => (Function.update rows name row m).target) =
      Function.update (fun m => (rows m).target) name row.target := by
  funext m
  by_cases hm : m = name
  · rw [hm, Function.update_self, Function.update_self]
  · rw [Function.update_of_ne hm, Function.update_of_ne hm]

/-- A call that is not refused writes a row of a registered queue, one that runs nothing or one
that fits the budget together with all the others. -/
theorem setState_ok {rows rows' : Name → QueueStateRow} {name : Name}
    {state : Option String} {concurrency : Option ℤ}
    (h : setState pool rows name state concurrency = .ok rows') :
    name ∈ pool.registered ∧ ∃ row, rows' = Function.update rows name row ∧
      (row.target = 0 ∨ (promised pool rows' : ℤ) ≤ pool.budget) := by
  rw [setState] at h
  cases hvalid : validate pool name state concurrency with
  | error e =>
    rw [hvalid] at h
    cases h
  | ok args =>
    rw [hvalid] at h
    have hname : name ∈ pool.registered := by
      by_contra hnot
      rw [validate, if_pos hnot] at hvalid
      cases hvalid
    refine ⟨hname, (rows name).set args.1 args.2, ?_⟩
    replace h : writeState pool rows name args.1 args.2 = .ok rows' := h
    rw [writeState] at h
    split at h
    · cases h
    · rename_i hfits
      cases h
      refine ⟨rfl, ?_⟩
      obtain hzero | hpos := Nat.eq_zero_or_pos ((rows name).set args.1 args.2).target
      · exact Or.inl hzero
      · right
        have hbound := not_lt.1 fun hlt => hfits ⟨hpos, hlt⟩
        rw [promised, targets_update, total_update pool.distinct hname]
        exact hbound

theorem promised_write {rows : Name → QueueStateRow} {name : Name}
    {row : QueueStateRow} (hname : name ∈ pool.registered)
    (hrow : row.target = 0 ∨ (promised pool (Function.update rows name row) : ℤ) ≤ pool.budget)
    (h : (promised pool rows : ℤ) ≤ pool.budget) :
    (promised pool (Function.update rows name row) : ℤ) ≤ pool.budget := by
  obtain hzero | hfits := hrow
  · have hle : promised pool (Function.update rows name row) ≤ promised pool rows := by
      rw [promised, targets_update]
      exact total_update_le pool.distinct hname (hzero ▸ Nat.zero_le _)
    omega
  · exact hfits

/-! ## What holds whatever the calls do -/

/-- A call is on a registered queue, and what it finds there was checked. -/
structure Checked (pool : Pool) (s : State) : Prop where
  registered : ∀ k c, s.call k = some c → c.name ∈ pool.registered
  fits : ∀ k c, s.call k = some c →
    (s.rows c.name).target = 0 ∨ (promised pool s.rows : ℤ) ≤ pool.budget

theorem checked_start (pool : Pool) (persisted : Name → QueueStateRow) :
    Checked pool (started pool persisted) where
  registered _ _ h := by cases h
  fits _ _ h := by cases h

theorem Checked.of_calls (h : Checked pool s) (hrows : t.rows = s.rows)
    (hcalls : ∀ k c, t.call k = some c → ∃ c', s.call k = some c' ∧ c'.name = c.name) :
    Checked pool t where
  registered k c hc := by
    obtain ⟨c', hold, hname⟩ := hcalls k c hc
    rw [← hname]
    exact h.registered k c' hold
  fits k c hc := by
    obtain ⟨c', hold, hname⟩ := hcalls k c hc
    rw [← hname, hrows]
    exact h.fits k c' hold

theorem call_of_update_none {calls : CallId → Option Call} {k k' : CallId} {c : Call}
    (h : Function.update calls k none k' = some c) : k' ≠ k ∧ calls k' = some c := by
  by_cases hk : k' = k
  · rw [hk, Function.update_self] at h
    cases h
  · rw [Function.update_of_ne hk] at h
    exact ⟨hk, h⟩

theorem checked_step (h : Checked pool s) (hstep : step pool s l = some t) : Checked pool t := by
  cases l with
  | setState k name state concurrency =>
    obtain ⟨-, hstep⟩ := Option.ite_none_right_eq_some.1 hstep
    split at hstep
    · cases hstep
      exact h
    · rename_i rows hwritten
      cases hstep
      obtain ⟨hname, row, rfl, hrow⟩ := setState_ok hwritten
      have hcalls : ∀ k' c, Function.update s.call k (some (.reading name)) k' = some c →
          c.name = name ∨ s.call k' = some c := by
        intro k' c hc
        by_cases hk : k' = k
        · rw [hk, Function.update_self] at hc
          cases hc
          exact Or.inl rfl
        · rw [Function.update_of_ne hk] at hc
          exact Or.inr hc
      constructor
      · intro k' c hc
        obtain hnew | hold := hcalls k' c hc
        · exact hnew ▸ hname
        · exact h.registered k' c hold
      · intro k' c hc
        dsimp only
        by_cases hsame : c.name = name
        · rw [hsame, Function.update_self]
          exact hrow
        · rw [Function.update_of_ne hsame]
          have hold := (hcalls k' c hc).resolve_left hsame
          exact (h.fits k' c hold).imp_right fun hfits => promised_write hname hrow hfits
  | readBack k =>
    simp only [step] at hstep
    split at hstep
    · rename_i name hreading
      cases hstep
      refine h.of_calls rfl fun k' c hc => ?_
      dsimp only at hc
      by_cases hk : k' = k
      · subst hk
        rw [Function.update_self] at hc
        cases hc
        exact ⟨_, hreading, rfl⟩
      · rw [Function.update_of_ne hk] at hc
        exact ⟨c, hc, rfl⟩
    · cases hstep
  | setTarget k =>
    simp only [step] at hstep
    split at hstep
    · cases hstep
      exact h.of_calls rfl fun k' c hc => ⟨c, (call_of_update_none hc).2, rfl⟩
    · cases hstep
  | fails k =>
    obtain ⟨c', -, rfl⟩ := Option.map_eq_some_iff.1 hstep
    exact h.of_calls rfl fun k' c hc => ⟨c, (call_of_update_none hc).2, rfl⟩

/-! ## The targets -/

theorem running_step (h : Checked pool s)
    (hfits : (running pool s : ℤ) ≤ pool.budget) (hclean : InStep pool s l)
    (hstep : step pool s l = some t) : (running pool t : ℤ) ≤ pool.budget := by
  cases l with
  | setState k name state concurrency =>
    obtain ⟨-, hstep⟩ := Option.ite_none_right_eq_some.1 hstep
    split at hstep
    · cases hstep
      exact hfits
    · cases hstep
      exact hfits
  | readBack k =>
    simp only [step] at hstep
    split at hstep
    · cases hstep
      exact hfits
    · cases hstep
  | fails k =>
    obtain ⟨c, -, rfl⟩ := Option.map_eq_some_iff.1 hstep
    exact hfits
  | setTarget k =>
    simp only [step] at hstep
    split at hstep
    · rename_i name row happlying
      cases hstep
      have hname : name ∈ pool.registered := h.registered k _ happlying
      obtain ⟨hcurrent, hothers⟩ := hclean _ happlying
      replace hcurrent : row.target = (s.rows name).target := hcurrent
      show (total pool.registered (Function.update s.target name row.target) : ℤ) ≤ pool.budget
      obtain hzero | hpromised := h.fits k _ happlying
      · -- a queue that is to run nothing
        replace hzero : (s.rows name).target = 0 := hzero
        have hle := total_update_le (f := s.target) pool.distinct hname (v := row.target)
          (by rw [hcurrent, hzero]; exact Nat.zero_le _)
        rw [running] at hfits
        omega
      · have hle : total pool.registered (Function.update s.target name row.target) ≤
            promised pool s.rows := by
          refine total_le_of_dominated fun m hm => ?_
          by_cases hmn : m = name
          · rw [hmn, Function.update_self, hcurrent]
          · rw [Function.update_of_ne hmn]
            exact hothers m hm hmn
        omega
    · cases hstep

/-- A target that is not its row's yet is one a call has still to set. -/
def Followed (pool : Pool) (s : State) : Prop :=
  ∀ name ∈ pool.registered, s.target name = (s.rows name).target ∨
    ∃ k c, s.call k = some c ∧ c.name = name

/-- A target that is not its row's yet is still a call's to set, after a step in its turn. -/
theorem followed_step (h : Followed pool s)
    (hclean : InStep pool s l) (hstep : step pool s l = some t) : Followed pool t := by
  cases l with
  | setState k name state concurrency =>
    obtain ⟨hfree, hstep⟩ := Option.ite_none_right_eq_some.1 hstep
    split at hstep
    · cases hstep
      exact h
    · rename_i rows hwritten
      cases hstep
      obtain ⟨-, row, rfl, -⟩ := setState_ok hwritten
      intro m hm
      dsimp only
      by_cases hmn : m = name
      · exact Or.inr ⟨k, .reading name, Function.update_self _ _ _, hmn.symm⟩
      · rw [Function.update_of_ne hmn]
        refine (h m hm).imp_right ?_
        rintro ⟨k', c, hc, hname⟩
        have hk : k' ≠ k := by
          rintro rfl
          rw [hfree] at hc
          cases hc
        exact ⟨k', c, by rw [Function.update_of_ne hk]; exact hc, hname⟩
  | readBack k =>
    simp only [step] at hstep
    split at hstep
    · rename_i name hreading
      cases hstep
      intro m hm
      refine (h m hm).imp_right ?_
      rintro ⟨k', c, hc, hname⟩
      by_cases hk : k' = k
      · subst hk
        rw [hreading] at hc
        cases hc
        exact ⟨k', _, Function.update_self _ _ _, hname⟩
      · exact ⟨k', c, by dsimp only; rw [Function.update_of_ne hk]; exact hc, hname⟩
    · cases hstep
  | setTarget k =>
    simp only [step] at hstep
    split at hstep
    · rename_i name row happlying
      cases hstep
      obtain ⟨hcurrent, -⟩ := hclean _ happlying
      intro m hm
      dsimp only
      by_cases hmn : m = name
      · left
        rw [hmn, Function.update_self]
        exact hcurrent
      · rw [Function.update_of_ne hmn]
        refine (h m hm).imp_right ?_
        rintro ⟨k', c, hc, hname⟩
        have hk : k' ≠ k := by
          rintro rfl
          rw [happlying] at hc
          cases hc
          exact hmn hname.symm
        exact ⟨k', c, by rw [Function.update_of_ne hk]; exact hc, hname⟩
    · cases hstep
  | fails k =>
    obtain ⟨c, hcall, rfl⟩ := Option.map_eq_some_iff.1 hstep
    have happlied : s.target c.name = (s.rows c.name).target := hclean c hcall
    intro m hm
    by_cases hmn : m = c.name
    · rw [hmn]
      exact Or.inl happlied
    · refine (h m hm).imp_right ?_
      rintro ⟨k', c', hc, hname⟩
      have hk : k' ≠ k := by
        rintro rfl
        rw [hcall] at hc
        cases hc
        exact hmn hname.symm
      exact ⟨k', c', by dsimp only; rw [Function.update_of_ne hk]; exact hc, hname⟩

/-- **The pool is never oversubscribed**, and the supervisors end on what is persisted, in every
run in which the calls set their targets in step. -/
theorem pool_never_oversubscribed {pool : Pool} {persisted : Name → QueueStateRow}
    (hbudget : 0 ≤ pool.budget) {s : State}
    (h : (system pool persisted).Reachable (InStep pool) s) :
    (running pool s : ℤ) ≤ pool.budget ∧
      ((promised pool persisted : ℤ) ≤ pool.budget → Returned s →
        ∀ name ∈ pool.registered, s.target name = (s.rows name).target) := by
  have hchecked : ∀ s, (system pool persisted).Reachable (InStep pool) s → Checked pool s := by
    intro s h
    refine TransitionSystem.Reachable.invariant (I := Checked pool) ?_ ?_ h
    · rintro s rfl
      exact checked_start pool persisted
    · intro s l t hs _ hstep
      exact checked_step hs hstep
  constructor
  · refine TransitionSystem.Reachable.invariant_of (J := fun s => (running pool s : ℤ) ≤ pool.budget)
      hchecked ?_ ?_ h
    · rintro s rfl
      have hgranted := total_startTargets persisted pool.distinct pool.budget
      rwa [max_eq_left hbudget] at hgranted
    · intro s l t hs hfits hclean hstep
      exact running_step hs hfits hclean hstep
  · intro hpersisted hreturned name hname
    have hfollowed : Followed pool s := by
      refine TransitionSystem.Reachable.invariant (I := Followed pool) ?_ ?_ h
      · rintro s rfl name hname
        exact Or.inl (startTargets_eq persisted pool.distinct hpersisted hname)
      · intro s l t hs hclean hstep
        exact followed_step hs hclean hstep
    refine (hfollowed name hname).resolve_right ?_
    rintro ⟨k, c, hc, -⟩
    rw [hreturned k] at hc
    cases hc

def callOf : Label → CallId
  | .setState k _ _ _ | .readBack k | .setTarget k | .fails k => k

theorem step_others {k : CallId} (hl : callOf l ≠ k)
    (hstep : step pool s l = some t) : t.call k = s.call k := by
  cases l with
  | setState k' name state concurrency =>
    obtain ⟨-, hstep⟩ := Option.ite_none_right_eq_some.1 hstep
    split at hstep
    · cases hstep
      rfl
    · cases hstep
      exact Function.update_of_ne hl.symm _ _
  | readBack k' | setTarget k' =>
    simp only [step] at hstep
    split at hstep
    · cases hstep
      exact Function.update_of_ne hl.symm _ _
    · cases hstep
  | fails k' =>
    obtain ⟨c, -, rfl⟩ := Option.map_eq_some_iff.1 hstep
    exact Function.update_of_ne hl.symm _ _

theorem returned_of_named {persisted : Name → QueueStateRow}
    {ls : List Label} (h : (system pool persisted).exec (started pool persisted) ls = some t)
    (hnamed : ∀ l ∈ ls, t.call (callOf l) = none) : Returned t := by
  intro k
  by_cases hk : ∃ l ∈ ls, callOf l = k
  · obtain ⟨l, hl, rfl⟩ := hk
    exact hnamed l hl
  · refine TransitionSystem.exec_preserves (I := fun s => s.call k = none) ls ?_ rfl h
    intro l hl s s' hs hstep
    rw [step_others (fun hsame => hk ⟨l, hl, hsame⟩) hstep]
    exact hs

/-- Two queues on a pool of ten of which two are kept for requests. -/
def twoQueues : Pool := ⟨["pipeline", "embedding"], by decide, 10, 2⟩

def busyAndPaused (name : Name) : QueueStateRow :=
  if name = "pipeline" then ⟨.running, 8⟩ else ⟨.paused, 1⟩

/-- The one queue gives its workers to the other; both calls are under way at once, and the one
that frees the workers sets its target first. -/
def handedOver : List Label :=
  [.setState 1 "pipeline" none (some 2), .setState 2 "embedding" (some "running") (some 6),
    .readBack 2, .readBack 1, .setTarget 1, .setTarget 2]

theorem pool_never_oversubscribed_handedOver :
    ((system twoQueues busyAndPaused).exec (started twoQueues busyAndPaused)
        (handedOver.take 4)).any (fun s => (s.call 1).isSome && (s.call 2).isSome) = true ∧
    ∃ s, Returned s ∧ (running twoQueues s : ℤ) ≤ twoQueues.budget ∧
      s.target "embedding" = 6 ∧
      ∀ name ∈ twoQueues.registered, s.target name = (s.rows name).target := by
  have hruns : ((system twoQueues busyAndPaused).exec (started twoQueues busyAndPaused)
      handedOver).any (fun s => decide (s.target "embedding" = 6 ∧
        ∀ l ∈ handedOver, s.call (callOf l) = none)) = true := by decide +kernel
  obtain ⟨s, hexec, hfacts⟩ := (Option.any_eq_true _ _).1 hruns
  obtain ⟨htarget, hnamed⟩ := of_decide_eq_true hfacts
  have hreturned := returned_of_named hexec hnamed
  obtain ⟨hfits, hsettled⟩ := pool_never_oversubscribed (by decide)
    (TransitionSystem.reachable_of_exec handedOver rfl (by decide +kernel) hexec)
  exact ⟨by decide +kernel, s, hreturned, hfits, htarget, hsettled (by decide) hreturned⟩

/-- The other queue's call comes before the first one has set its target. -/
def overtaken : List Label :=
  [.setState 1 "pipeline" none (some 0), .setState 2 "embedding" (some "running") (some 8),
    .readBack 2, .setTarget 2]

theorem overtaking_oversubscribes :
    ¬ ∀ pool persisted s, 0 ≤ pool.budget → (promised pool persisted : ℤ) ≤ pool.budget →
      (system pool persisted).Reachable TransitionSystem.anyStep s →
        (running pool s : ℤ) ≤ pool.budget ∧
          (Returned s → ∀ name ∈ pool.registered, s.target name = (s.rows name).target) := by
  intro h
  have hruns : ((system twoQueues busyAndPaused).exec (started twoQueues busyAndPaused)
      overtaken).any (fun s => decide (running twoQueues s = 16)) = true := by decide +kernel
  obtain ⟨s, hexec, hsum⟩ := (Option.any_eq_true _ _).1 hruns
  have hfits := (h twoQueues busyAndPaused s (by decide) (by decide)
    (TransitionSystem.reachable_of_exec_any overtaken rfl hexec)).1
  rw [of_decide_eq_true hsum] at hfits
  exact absurd hfits (by decide)

end MailVerdict.Analysis.WorkerBudget
