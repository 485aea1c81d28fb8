import MailVerdict.Computation.TransitionSystem
import Mathlib.Data.List.Nodup

/-!
# Concurrent read-modify-write

Operations share one value. Each reads it, makes a new value of what it read, writes
that over whatever the value is by then, and reports on it afterwards. Nothing compares
the value read with the value written over, so an operation can undo another.

`Undisturbed` is the condition on steps that rules this out: an operation writes only
while the value is still the one it read, and reports the write it made. Along runs of
such steps the operations that reported success, taken in the order of their writes,
account for the value (`serial_of_undisturbed`).
-/

namespace MailVerdict.Computation

universe u v

/-- What an operation writes given the value it read (none: it is refused), and whether
it reports success given the value it wrote and the value found afterwards. -/
structure Operation (S : Type u) where
  write : S → Option S
  reports : S → S → Bool

namespace ReadModifyWrite

inductive Phase (S : Type u)
  | idle
  | holding (snapshot : S)
  | wrote (written : S)
  | done (success : Bool)

/-- The shared value, every operation's phase, and the operations that wrote, in order. -/
structure State (I : Type v) (S : Type u) where
  value : S
  phase : I → Phase S
  log : List I

inductive Label (I : Type v)
  | read (i : I)
  | write (i : I)
  | report (i : I)

variable {I : Type v} {S : Type u} [DecidableEq I] (ops : I → Operation S)

def setPhase (s : State I S) (i : I) (p : Phase S) : State I S :=
  { s with phase := Function.update s.phase i p }

def step (s : State I S) : Label I → Option (State I S)
  | .read i =>
    match s.phase i with
    | .idle => some (setPhase s i (.holding s.value))
    | _ => none
  | .write i =>
    match s.phase i with
    | .holding snapshot =>
      match (ops i).write snapshot with
      | some v => some { setPhase s i (.wrote v) with value := v, log := s.log ++ [i] }
      | none => some (setPhase s i (.done false))
    | _ => none
  | .report i =>
    match s.phase i with
    | .wrote v => some (setPhase s i (.done ((ops i).reports v s.value)))
    | _ => none

def start (v : S) : State I S := { value := v, phase := fun _ => .idle, log := [] }

def system (v : S) : TransitionSystem (State I S) (Label I) where
  init s := s = start v
  step := step ops

def Undisturbed (s : State I S) : Label I → Prop
  | .read _ => True
  | .write i => ∀ snapshot, s.phase i = .holding snapshot → s.value = snapshot
  | .report i => ∀ v, s.phase i = .wrote v → (ops i).reports v s.value = true

def Quiescent (s : State I S) : Prop :=
  ∀ i, s.phase i = .idle ∨ ∃ b, s.phase i = .done b

/-- Running operations one after another, each on what the one before it left. -/
def runAll (v : S) (order : List I) : Option S := order.foldlM (fun v i => (ops i).write v) v

/-- The value is what the operations that reported success make of the first value when
they run one after another, in some order. -/
def Serial (v : S) (s : State I S) : Prop :=
  ∃ order : List I, order.Nodup ∧ (∀ i, i ∈ order ↔ s.phase i = .done true) ∧
    runAll ops v order = some s.value

variable {ops}
variable {s t : State I S} {v : S}

omit [DecidableEq I] in
theorem runAll_concat {w x : S} {order : List I} {i : I} (h : runAll ops v order = some w)
    (hi : (ops i).write w = some x) : runAll ops v (order ++ [i]) = some x := by
  unfold runAll at h ⊢
  rw [List.foldlM_append, h]
  show (List.foldlM (fun v i => (ops i).write v) w [i]) = some x
  rw [List.foldlM_cons, hi]
  rfl

/-- The log accounts for the value, and holds the operations that wrote and did not fail
to report it, each once. -/
structure Logged (ops : I → Operation S) (v : S) (s : State I S) : Prop where
  value : runAll ops v s.log = some s.value
  nodup : s.log.Nodup
  mem : ∀ i, i ∈ s.log ↔ (∃ w, s.phase i = .wrote w) ∨ s.phase i = .done true

omit [DecidableEq I] in
theorem logged_start : Logged ops v (start v) := by
  refine ⟨rfl, List.nodup_nil, fun i => ⟨fun h => (by cases h), ?_⟩⟩
  rintro (⟨w, hw⟩ | hd)
  · cases hw
  · cases hd

theorem setPhase_self (i : I) (p : Phase S) : (setPhase s i p).phase i = p := by
  show Function.update s.phase i p i = p
  rw [Function.update_self]

theorem setPhase_of_ne {i j : I} (h : j ≠ i) (p : Phase S) :
    (setPhase s i p).phase j = s.phase j := by
  show Function.update s.phase i p j = s.phase j
  rw [Function.update_of_ne h]

theorem Logged.setPhase (h : Logged ops v s) {i : I} {p : Phase S}
    (hp : ((∃ w, p = .wrote w) ∨ p = .done true) ↔ i ∈ s.log) :
    Logged ops v (setPhase s i p) := by
  refine ⟨h.value, h.nodup, fun j => ?_⟩
  by_cases hj : j = i
  · rw [hj, setPhase_self]
    exact hp.symm
  · rw [setPhase_of_ne hj]
    exact h.mem j

/-- An undisturbed write is one more of those the log holds, in its order. -/
theorem logged_step {l : Label I} (h : Logged ops v s) (hp : Undisturbed ops s l)
    (hstep : step ops s l = some t) : Logged ops v t := by
  cases l with
  | read i =>
    simp only [step] at hstep
    split at hstep
    · rename_i hphase
      cases hstep
      refine h.setPhase ⟨fun hw => ?_, fun hmem => ?_⟩
      · rcases hw with ⟨w, hw⟩ | hd
        · cases hw
        · cases hd
      · have hmem := (h.mem i).1 hmem
        rw [hphase] at hmem
        rcases hmem with ⟨w, hw⟩ | hd
        · cases hw
        · cases hd
    · cases hstep
  | write i =>
    simp only [step] at hstep
    split at hstep
    · rename_i snapshot hphase
      have hnot : i ∉ s.log := by
        rw [h.mem i, hphase]
        rintro (⟨w, hw⟩ | hd)
        · cases hw
        · cases hd
      split at hstep
      · rename_i w hw
        cases hstep
        have hcurrent := hp snapshot hphase
        refine ⟨?_, ?_, fun j => ?_⟩
        · exact runAll_concat h.value (by rw [hcurrent]; exact hw)
        · rw [List.nodup_append]
          refine ⟨h.nodup, List.nodup_singleton i, ?_⟩
          rintro a ha b hb rfl
          rw [List.mem_singleton.1 hb] at ha
          exact hnot ha
        · show j ∈ s.log ++ [i] ↔ (∃ x, (setPhase s i (.wrote w)).phase j = .wrote x) ∨
            (setPhase s i (.wrote w)).phase j = .done true
          by_cases hj : j = i
          · rw [hj, setPhase_self]
            exact ⟨fun _ => .inl ⟨w, rfl⟩, fun _ => List.mem_append_right _ List.mem_cons_self⟩
          · rw [setPhase_of_ne hj, ← h.mem j, List.mem_append, List.mem_singleton]
            exact ⟨fun hmem => hmem.resolve_right hj, .inl⟩
      · cases hstep
        refine h.setPhase ⟨fun hw => ?_, fun hmem => absurd hmem hnot⟩
        rcases hw with ⟨w, hw⟩ | hd
        · cases hw
        · cases hd
    · cases hstep
  | report i =>
    simp only [step] at hstep
    split at hstep
    · rename_i w hphase
      cases hstep
      rw [hp w hphase]
      refine h.setPhase ⟨fun _ => ?_, fun _ => .inr rfl⟩
      rw [h.mem i, hphase]
      exact .inl ⟨w, rfl⟩
    · cases hstep

/-- **Undisturbed operations are serial.** -/
theorem serial_of_undisturbed (h : (system ops v).Reachable (Undisturbed ops) s)
    (hquiet : Quiescent s) : Serial ops v s := by
  have hlog : Logged ops v s := by
    refine h.invariant ?_ fun s l t hs hp hst => logged_step hs hp hst
    rintro s rfl
    exact logged_start
  refine ⟨s.log, hlog.nodup, fun i => ?_, hlog.value⟩
  rw [hlog.mem i]
  constructor
  · rintro (⟨w, hw⟩ | hd)
    · rcases hquiet i with hidle | ⟨b, hdone⟩
      · rw [hidle] at hw
        cases hw
      · rw [hdone] at hw
        cases hw
    · exact hd
  · exact .inr

end ReadModifyWrite

end MailVerdict.Computation
