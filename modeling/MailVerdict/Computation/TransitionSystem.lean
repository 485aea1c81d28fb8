import Mathlib.Tactic.Common

/-!
# Guarded transition systems and runs under a step condition

A system is a set of initial states and a partial step: a label carries every
choice the environment makes (which row a scan meets first, which message is
lost), so `step` is a function and a run can be executed.

`Reachable P` collects the states of every run whose steps all meet `P`, a
condition on the state before the step and on the label. With `P` always true
it is ordinary reachability; with a proper `P` it states "in every run in which
the branch excluded by `P` is never taken". Each induction over runs is made
here once: `Reachable.invariant` for properties of states, `Run.preserves` for
what holds from one state on.
-/

namespace MailVerdict.Computation

universe u v

structure TransitionSystem (State : Type u) (Label : Type v) where
  init : State → Prop
  step : State → Label → Option State

namespace TransitionSystem

variable {State : Type u} {Label : Type v} (T : TransitionSystem State Label)

/-- The states of every run whose steps all meet `P`. -/
inductive Reachable (P : State → Label → Prop) : State → Prop
  | init {s : State} (h : T.init s) : Reachable P s
  | step {s t : State} {l : Label} (hs : Reachable P s) (hp : P s l)
      (hstep : T.step s l = some t) : Reachable P t

/-- A run from one state to another, every step of it meeting `P`. -/
inductive Run (P : State → Label → Prop) (s : State) : State → Prop
  | refl : Run P s s
  | step {t u : State} {l : Label} (ht : Run P s t) (hp : P t l)
      (hstep : T.step t l = some u) : Run P s u

def anyStep : State → Label → Prop := fun _ _ => True

def exec (s : State) : List Label → Option State
  | [] => some s
  | l :: ls => (T.step s l).bind fun t => exec t ls

/-- Whether every step of an execution meets a decidable condition. -/
def execMeets (P : State → Label → Prop) [∀ s l, Decidable (P s l)] (s : State) :
    List Label → Bool
  | [] => true
  | l :: ls => decide (P s l) && match T.step s l with
    | some t => execMeets P t ls
    | none => false

/-- The states an execution comes to, one for each step it makes. -/
def trail (s : State) : List Label → List State
  | [] => []
  | l :: ls => match T.step s l with
    | some t => t :: trail t ls
    | none => []

variable {T}
variable {P Q : State → Label → Prop} {s t u : State}

/-- **The invariant rule**: what holds initially and survives every step that
meets `P` holds in every state such runs reach. -/
theorem Reachable.invariant {I : State → Prop} (hinit : ∀ s, T.init s → I s)
    (hstep : ∀ s l t, I s → P s l → T.step s l = some t → I t)
    (h : T.Reachable P s) : I s := by
  induction h with
  | init h => exact hinit _ h
  | step _ hp hst ih => exact hstep _ _ _ ih hp hst

/-- **The strengthened invariant rule**: `J` is preserved wherever the invariant
`I`, already established, holds too. -/
theorem Reachable.invariant_of {I J : State → Prop} (hI : ∀ s, T.Reachable P s → I s)
    (hinit : ∀ s, T.init s → J s)
    (hstep : ∀ s l t, I s → J s → P s l → T.step s l = some t → J t)
    (h : T.Reachable P s) : J s := by
  induction h with
  | init h => exact hinit _ h
  | step hs hp hst ih => exact hstep _ _ _ (hI _ hs) ih hp hst

theorem Reachable.mono (hPQ : ∀ s l, P s l → Q s l) (h : T.Reachable P s) :
    T.Reachable Q s := by
  induction h with
  | init h => exact .init h
  | step _ hp hst ih => exact .step ih (hPQ _ _ hp) hst

theorem Reachable.run (hs : T.Reachable P s) (h : T.Run P s t) : T.Reachable P t := by
  induction h with
  | refl => exact hs
  | step _ hp hst ih => exact .step ih hp hst

theorem Run.preserves {I : State → Prop}
    (hstep : ∀ s l t, I s → P s l → T.step s l = some t → I t)
    (h : T.Run P s t) (hs : I s) : I t := by
  induction h with
  | refl => exact hs
  | step _ hp hst ih => exact hstep _ _ _ ih hp hst

theorem Run.head {l : Label} (hp : P s l) (hst : T.step s l = some t) (h : T.Run P t u) :
    T.Run P s u := by
  induction h with
  | refl => exact .step .refl hp hst
  | step _ hp' hst' ih => exact .step ih hp' hst'

theorem Run.trans (h : T.Run P s t) (h' : T.Run P t u) : T.Run P s u := by
  induction h' with
  | refl => exact h
  | step _ hp hst ih => exact .step ih hp hst

theorem run_of_exec [∀ s l, Decidable (P s l)] (ls : List Label)
    (hmeets : T.execMeets P s ls = true) (h : T.exec s ls = some t) : T.Run P s t := by
  induction ls generalizing s with
  | nil =>
    simp only [exec, Option.some.injEq] at h
    exact h ▸ .refl
  | cons l ls ih =>
    simp only [execMeets, Bool.and_eq_true, decide_eq_true_eq] at hmeets
    obtain ⟨hp, hrest⟩ := hmeets
    cases hst : T.step s l with
    | none => simp [hst] at hrest
    | some m =>
      simp only [hst] at hrest
      simp only [exec, hst, Option.bind_some] at h
      exact (ih hrest h).head hp hst

theorem reachable_of_exec [∀ s l, Decidable (P s l)] (ls : List Label) (hinit : T.init s)
    (hmeets : T.execMeets P s ls = true) (h : T.exec s ls = some t) : T.Reachable P t :=
  (Reachable.init hinit).run (run_of_exec ls hmeets h)

/-- Two conditions that agree on the enabled steps of the states an invariant describes are met
by the same executions. -/
theorem execMeets_congr [∀ s l, Decidable (P s l)] [∀ s l, Decidable (Q s l)] {I : State → Prop}
    (hstep : ∀ s l t, I s → T.step s l = some t → I t)
    (hiff : ∀ s l t, I s → T.step s l = some t → (P s l ↔ Q s l)) (ls : List Label) (hs : I s) :
    T.execMeets P s ls = true ↔ T.execMeets Q s ls = true := by
  induction ls generalizing s with
  | nil => exact Iff.rfl
  | cons l ls ih =>
    rw [execMeets, execMeets]
    cases hst : T.step s l with
    | none => simp only [Bool.and_false, Bool.false_eq_true]
    | some t =>
      simp only [Bool.and_eq_true, decide_eq_true_eq]
      rw [hiff s l t hs hst, ih (hstep s l t hs hst)]

/-- **The rule of the exact condition**: where a step from a state with `S` leaves `S` exactly if
it meets `P`, an execution from one comes to states with `S` alone exactly if its steps meet
`P`. -/
theorem trail_iff_execMeets [∀ s l, Decidable (P s l)] {I S : State → Prop}
    (hstep : ∀ s l t, I s → T.step s l = some t → I t)
    (hiff : ∀ s l t, I s → S s → T.step s l = some t → (S t ↔ P s l)) (ls : List Label)
    (hI : I s) (hS : S s) (h : T.exec s ls = some u) :
    (∀ x ∈ T.trail s ls, S x) ↔ T.execMeets P s ls = true := by
  induction ls generalizing s with
  | nil => exact iff_of_true (fun _ hx => absurd hx List.not_mem_nil) rfl
  | cons l ls ih =>
    rw [exec] at h
    rw [execMeets, trail]
    obtain ⟨t, hst, hrest⟩ := Option.bind_eq_some_iff.1 h
    have hone := hiff s l t hI hS hst
    simp only [hst, List.forall_mem_cons, Bool.and_eq_true, decide_eq_true_eq]
    rw [hone]
    refine and_congr_right fun hp => ?_
    exact ih (hstep s l t hI hst) (hone.2 hp) hrest

theorem exec_preserves {I : State → Prop} (ls : List Label)
    (hstep : ∀ l ∈ ls, ∀ s t, I s → T.step s l = some t → I t) (hs : I s)
    (h : T.exec s ls = some t) : I t := by
  induction ls generalizing s with
  | nil =>
    simp only [exec, Option.some.injEq] at h
    exact h ▸ hs
  | cons l ls ih =>
    obtain ⟨m, hst, hrest⟩ := Option.bind_eq_some_iff.1 h
    refine ih (fun x hx => hstep x (List.mem_cons_of_mem _ hx)) ?_ hrest
    exact hstep l List.mem_cons_self s m hs hst

theorem run_of_exec_any (ls : List Label) (h : T.exec s ls = some t) :
    T.Run anyStep s t := by
  induction ls generalizing s with
  | nil =>
    simp only [exec, Option.some.injEq] at h
    exact h ▸ .refl
  | cons l ls ih =>
    cases hst : T.step s l with
    | none => simp [exec, hst] at h
    | some m =>
      simp only [exec, hst, Option.bind_some] at h
      exact (ih h).head trivial hst

theorem reachable_of_exec_any (ls : List Label) (hinit : T.init s)
    (h : T.exec s ls = some t) : T.Reachable anyStep t :=
  (Reachable.init hinit).run (run_of_exec_any ls h)

end TransitionSystem

end MailVerdict.Computation
