import Mathlib.Data.Finset.Union
import MailVerdict.Computation.TransitionSystem

/-!
# Transactions at READ COMMITTED

A transaction is a list of statements. A statement takes a snapshot of what is committed
when it starts (`Label.start`) and runs later, when no other transaction has written a row
it writes (`Label.exec`): what it selects it reads in the snapshot, the rows it changes in
their newest committed version, and in both the transaction's own writes. By what it read
it may put further statements in front of the rest. The writes of a transaction reach the
database at its commit.

Two transactions that overlap may each read what the other is about to change. A
`Discipline` says which parts of the database a statement uses, and which uses clash. A
run is kept apart when no statement starts on a part that clashes with what another open
transaction has used (`Apart`). Then the transactions have the effect of running one at a
time, each at its commit: an invariant of the programs run alone (`Discipline.Triple`)
holds of the database in every state (`Discipline.holds_of_reachable`).
-/

namespace MailVerdict.Computation

/-- Statements, what each does to a database, and the programs made of them. -/
structure Engine (Db Delta Stmt Use Kind Event : Type) where
  write : Db → Delta → Db
  /-- What a statement writes, and the statements that follow from what it read: by the
  snapshot and by the current state, as the transaction sees them. -/
  run : Db → Db → Stmt → Option (Delta × List Stmt)
  /-- The parts of the database a statement reads or changes. -/
  uses : Db → Stmt → Finset Use
  /-- Whether a statement has to wait for what another transaction has written. -/
  waits : List Delta → Delta → Bool
  program : Kind → List Stmt
  /-- The programs that begin by taking the one advisory lock. -/
  takesLock : Kind → Bool
  /-- What happens to the database from elsewhere. -/
  outside : Db → Event → Db

namespace Engine

variable {Db Delta Stmt Use Kind Event : Type}

structure Tx (Db Delta Stmt Use : Type) where
  id : ℕ
  locked : Bool
  todo : List Stmt
  writes : List Delta
  snapshot : Option Db
  /-- What its statements have used so far. -/
  used : Finset Use

structure State (Db Delta Stmt Use : Type) where
  db : Db
  txs : List (Tx Db Delta Stmt Use)

inductive Label (Kind Event : Type)
  | outside (e : Event)
  | begin (n : ℕ) (k : Kind)
  | start (n : ℕ)
  | exec (n : ℕ)
  | commit (n : ℕ)
  | rollback (n : ℕ)

namespace State

variable (s : State Db Delta Stmt Use)

def tx? (n : ℕ) : Option (Tx Db Delta Stmt Use) := s.txs.find? fun t => decide (t.id = n)

def others (n : ℕ) : List (Tx Db Delta Stmt Use) := s.txs.filter fun t => decide (t.id ≠ n)

/-- A transaction replaced by its next state. -/
def put (t : Tx Db Delta Stmt Use) : State Db Delta Stmt Use :=
  { s with txs := t :: s.others t.id }

variable {s}

theorem mem_others {n : ℕ} {t : Tx Db Delta Stmt Use} :
    t ∈ s.others n ↔ t ∈ s.txs ∧ t.id ≠ n := by
  simp [others]

theorem mem_of_tx? {n : ℕ} {t : Tx Db Delta Stmt Use} (h : s.tx? n = some t) :
    t ∈ s.txs ∧ t.id = n :=
  ⟨List.mem_of_find?_eq_some h, by simpa using List.find?_some h⟩

theorem mem_put {t t' : Tx Db Delta Stmt Use} :
    t' ∈ (s.put t).txs ↔ t' = t ∨ t' ∈ s.txs ∧ t'.id ≠ t.id := by
  rw [put, List.mem_cons, mem_others]

end State

variable (E : Engine Db Delta Stmt Use Kind Event)

def view (d : Db) (ws : List Delta) : Db := ws.foldl E.write d

theorem view_append (d : Db) (ws : List Delta) (c : Delta) :
    E.view d (ws ++ [c]) = E.write (E.view d ws) c := by
  simp [view]

def begin (s : State Db Delta Stmt Use) (n : ℕ) (k : Kind) : Option (State Db Delta Stmt Use) :=
  if (s.tx? n).isNone ∧ (E.takesLock k = true → ∀ t ∈ s.txs, t.locked = false) then
    some (s.put ⟨n, E.takesLock k, E.program k, [], none, ∅⟩)
  else none

def start [DecidableEq Use] (s : State Db Delta Stmt Use) (t : Tx Db Delta Stmt Use) :
    Option (State Db Delta Stmt Use) :=
  match t.todo, t.snapshot with
  | st :: _, none => some (s.put
      { t with snapshot := some s.db, used := t.used ∪ E.uses (E.view s.db t.writes) st })
  | _, _ => none

/-- The head statement runs, once it has not to wait. -/
def exec (s : State Db Delta Stmt Use) (t : Tx Db Delta Stmt Use) :
    Option (State Db Delta Stmt Use) :=
  match t.todo, t.snapshot with
  | st :: rest, some d =>
    (E.run (E.view d t.writes) (E.view s.db t.writes) st).bind fun r =>
      if ∀ t' ∈ s.others t.id, E.waits t'.writes r.1 = false then
        some (s.put { t with todo := r.2 ++ rest, writes := t.writes ++ [r.1], snapshot := none })
      else none
  | _, _ => none

def commit (s : State Db Delta Stmt Use) (t : Tx Db Delta Stmt Use) :
    Option (State Db Delta Stmt Use) :=
  match t.todo with
  | [] => some ⟨E.view s.db t.writes, s.others t.id⟩
  | _ :: _ => none

def step [DecidableEq Use] (s : State Db Delta Stmt Use) :
    Label Kind Event → Option (State Db Delta Stmt Use)
  | .outside e => some { s with db := E.outside s.db e }
  | .begin n k => E.begin s n k
  | .start n => (s.tx? n).bind (E.start s)
  | .exec n => (s.tx? n).bind (E.exec s)
  | .commit n => (s.tx? n).bind (E.commit s)
  | .rollback n => some { s with txs := s.others n }

/-- The runs from a database with no transaction open. -/
def system [DecidableEq Use] (d : Db) :
    TransitionSystem (State Db Delta Stmt Use) (Label Kind Event) where
  init s := s = ⟨d, []⟩
  step := E.step

/-- No statement starts on a part of the database that clashes with what another open
transaction has used, and each that runs is allowed where it runs. -/
def Apart (clash : Use → Use → Bool) (allowed : Db → Stmt → Bool)
    (s : State Db Delta Stmt Use) : Label Kind Event → Prop
  | .start n => ∀ t ∈ s.txs, t.id = n → ∀ st ∈ t.todo.head?,
      ∀ u ∈ E.uses (E.view s.db t.writes) st, ∀ t' ∈ s.others n, ∀ u' ∈ t'.used,
        clash u u' = false
  | .exec n => ∀ t ∈ s.txs, t.id = n → ∀ st ∈ t.todo.head?,
      allowed (E.view s.db t.writes) st = true
  | _ => True

instance (clash : Use → Use → Bool) (allowed : Db → Stmt → Bool)
    (s : State Db Delta Stmt Use) (l : Label Kind Event) :
    Decidable (E.Apart clash allowed s l) := by
  cases l <;> unfold Apart <;> infer_instance

/-- What the parts of a database are: when one database follows another on a part, and
what a statement means to a transaction that has the parts it uses to itself. -/
structure Discipline (clash : Use → Use → Bool) (allowed : Db → Stmt → Bool) where
  follows : Use → Db → Db → Prop
  spec : Db → Stmt → Delta → List Stmt → Prop
  clash_symm : ∀ u u', clash u u' = clash u' u
  refl : ∀ u d, follows u d d
  trans : ∀ u d d' d'', follows u d d' → follows u d' d'' → follows u d d''
  follows_write : ∀ u d d' c, follows u d d' → follows u (E.write d c) (E.write d' c)
  follows_outside : ∀ u d e, follows u d (E.outside d e)
  uses_of_follows : ∀ d d' st, (∀ u ∈ E.uses d st, follows u d d') → E.uses d' st = E.uses d st
  sound : ∀ d d' v st c more, (∀ u ∈ E.uses d st, follows u d d' ∧ follows u d' v) →
    allowed d' st = true → E.run d d' st = some (c, more) → spec v st c more
  frame : ∀ v st c more u, spec v st c more → (∀ u' ∈ E.uses v st, clash u u' = false) →
    follows u v (E.write v c)

namespace Discipline

variable {E} {clash : Use → Use → Bool} {allowed : Db → Stmt → Bool}
variable (D : E.Discipline clash allowed)

/-! ## Programs run alone -/

/-- The statements run one after the other, with no one else there. -/
inductive Serial : Db → List Stmt → Db → Prop
  | done (v : Db) : Serial v [] v
  | next {v v' : Db} {st : Stmt} {c : Delta} {more rest : List Stmt}
      (hst : D.spec v st c more) (h : Serial (E.write v c) (more ++ rest) v') :
      Serial v (st :: rest) v'

/-- Run alone from a database with `P`, the statements end in one with `Q`. -/
def Triple (P : Db → Prop) (todo : List Stmt) (Q : Db → Prop) : Prop :=
  ∀ v, P v → ∀ v', D.Serial v todo v' → Q v'

variable {D} {P Q R : Db → Prop} {st : Stmt} {rest : List Stmt}

theorem Triple.nil (h : ∀ v, P v → Q v) : D.Triple P [] Q := by
  intro v hv v' hserial
  cases hserial
  exact h v hv

theorem Triple.cons (h : ∀ v c more, P v → D.spec v st c more →
    D.Triple (fun x => x = E.write v c) (more ++ rest) Q) : D.Triple P (st :: rest) Q := by
  intro v hv v' hserial
  cases hserial with
  | next hst hrest => exact h v _ _ hv hst _ rfl _ hrest

theorem Triple.step (h : ∀ v c more, P v → D.spec v st c more → more = [] ∧ R (E.write v c))
    (hrest : D.Triple R rest Q) : D.Triple P (st :: rest) Q := by
  refine Triple.cons fun v c more hv hst => ?_
  obtain ⟨rfl, hR⟩ := h v c more hv hst
  rintro _ rfl v' hserial
  exact hrest _ hR v' hserial

theorem Triple.weaken (h : D.Triple R rest Q) (hP : ∀ v, P v → R v) : D.Triple P rest Q :=
  fun v hv v' hserial => h v (hP v hv) v' hserial

/-! ## Programs kept apart -/

section Invariant

variable (D) (I : Db → Prop)

/-- What is known of an open transaction: run alone from where it is, on any database that
follows on what it has used, it restores `I`; and all it has written is its own. -/
structure Ready (d : Db) (t : Tx Db Delta Stmt Use) : Prop where
  restores : ∀ d', (∀ u ∈ t.used, D.follows u d d') → I d' →
    ∀ v, D.Serial (E.view d' t.writes) t.todo v → I v
  owned : ∀ d', (∀ u ∈ t.used, D.follows u d d') →
    ∀ u, (∀ u' ∈ t.used, clash u u' = false) → D.follows u d' (E.view d' t.writes)
  seen : ∀ d₀, t.snapshot = some d₀ → (∀ u ∈ t.used, D.follows u d₀ d) ∧
    ∀ st ∈ t.todo.head?, E.uses (E.view d₀ t.writes) st ⊆ t.used

structure Inv (s : State Db Delta Stmt Use) : Prop where
  holds : I s.db
  ready : ∀ t ∈ s.txs, Ready D I s.db t
  apart : ∀ t ∈ s.txs, ∀ t' ∈ s.txs, t.id ≠ t'.id → ∀ u ∈ t.used, ∀ u' ∈ t'.used,
    clash u u' = false

variable {D I} {s : State Db Delta Stmt Use} {t t' : Tx Db Delta Stmt Use} {d d' : Db}

theorem follows_view {u : Use} (h : D.follows u d d') (ws : List Delta) :
    D.follows u (E.view d ws) (E.view d' ws) := by
  induction ws generalizing d d' with
  | nil => exact h
  | cons c ws ih => exact ih (D.follows_write u d d' c h)

theorem Ready.follow (h : Ready D I d t) (hd : ∀ u ∈ t.used, D.follows u d d') :
    Ready D I d' t where
  restores d'' hd'' := h.restores d'' fun u hu => D.trans u _ _ _ (hd u hu) (hd'' u hu)
  owned d'' hd'' := h.owned d'' fun u hu => D.trans u _ _ _ (hd u hu) (hd'' u hu)
  seen d₀ hd₀ := by
    obtain ⟨hseen, huses⟩ := h.seen d₀ hd₀
    exact ⟨fun u hu => D.trans u _ _ _ (hseen u hu) (hd u hu), huses⟩

theorem uses_view {d₀ : Db} (hused : E.uses (E.view d₀ t.writes) st ⊆ t.used)
    (hfollow : ∀ u ∈ t.used, D.follows u d₀ d) :
    E.uses (E.view d t.writes) st ⊆ t.used := by
  have huses := D.uses_of_follows _ (E.view d t.writes) st fun u hu =>
    follows_view (hfollow u (hused hu)) t.writes
  rw [huses]
  exact hused

theorem Inv.put (h : Inv D I s) (ht : Ready D I s.db t)
    (hapart : ∀ t' ∈ s.others t.id, ∀ u ∈ t.used, ∀ u' ∈ t'.used, clash u u' = false) :
    Inv D I (s.put t) where
  holds := h.holds
  ready t' ht' := by
    obtain rfl | ⟨hold, -⟩ := State.mem_put.1 ht'
    · exact ht
    · exact h.ready t' hold
  apart a ha b hb hne u hu u' hu' := by
    obtain rfl | ⟨hafrom, hane⟩ := State.mem_put.1 ha
    · obtain rfl | ⟨hbfrom, hbne⟩ := State.mem_put.1 hb
      · exact absurd rfl hne
      · exact hapart b (State.mem_others.2 ⟨hbfrom, hbne⟩) u hu u' hu'
    · obtain rfl | ⟨hbfrom, -⟩ := State.mem_put.1 hb
      · rw [D.clash_symm]
        exact hapart a (State.mem_others.2 ⟨hafrom, hane⟩) u' hu' u hu
      · exact h.apart a hafrom b hbfrom hne u hu u' hu'

theorem inv_begin {n : ℕ} {k : Kind} {s' : State Db Delta Stmt Use} (h : Inv D I s)
    (hprogram : D.Triple I (E.program k) I) (hstep : E.begin s n k = some s') :
    Inv D I s' := by
  rw [begin] at hstep
  split at hstep
  · cases hstep
    refine h.put ⟨fun d' _ hd' v hserial => hprogram d' hd' v hserial,
      fun d' _ u _ => D.refl u d', nofun⟩ ?_
    intro t' _ u hu
    exact absurd hu (Finset.notMem_empty u)
  · cases hstep

theorem inv_start [DecidableEq Use] {n : ℕ} {s' : State Db Delta Stmt Use} (h : Inv D I s)
    (ht : s.tx? n = some t) (hquiet : E.Apart clash allowed s (.start n : Label Kind Event))
    (hstep : E.start s t = some s') : Inv D I s' := by
  obtain ⟨hmem, hid⟩ := State.mem_of_tx? ht
  have hready := h.ready t hmem
  rw [start] at hstep
  split at hstep
  next st rest htodo hnone =>
    cases hstep
    refine h.put ⟨?_, ?_, ?_⟩ ?_
    · intro d' hd'
      exact hready.restores d' fun u hu => hd' u (Finset.mem_union_left _ hu)
    · intro d' hd' u hu
      exact hready.owned d' (fun u hu => hd' u (Finset.mem_union_left _ hu)) u
        fun u' hu' => hu u' (Finset.mem_union_left _ hu')
    · rintro d₀ ⟨⟩
      refine ⟨fun u _ => D.refl u s.db, fun st' hst' => ?_⟩
      simp only [htodo, List.head?_cons, Option.mem_some_iff] at hst'
      exact hst' ▸ Finset.subset_union_right
    · intro t' ht' u hu u' hu'
      obtain hu | hu := Finset.mem_union.1 hu
      · obtain ⟨hother, hne⟩ := State.mem_others.1 ht'
        exact h.apart t hmem t' hother (Ne.symm hne) u hu u' hu'
      · exact hquiet t hmem hid st (by rw [htodo]; rfl) u hu t' (hid ▸ ht') u' hu'
  · cases hstep

/-- A statement apart from the others' keeps it. -/
theorem inv_exec {n : ℕ} {s' : State Db Delta Stmt Use} (h : Inv D I s)
    (ht : s.tx? n = some t) (hquiet : E.Apart clash allowed s (.exec n : Label Kind Event))
    (hstep : E.exec s t = some s') : Inv D I s' := by
  obtain ⟨hmem, hid⟩ := State.mem_of_tx? ht
  have hready := h.ready t hmem
  rw [exec] at hstep
  split at hstep
  next st rest d₀ htodo hsnap =>
    obtain ⟨⟨c, more⟩, hrun, hstep⟩ := Option.bind_eq_some_iff.1 hstep
    split at hstep
    · cases hstep
      obtain ⟨hseen, huses⟩ := hready.seen d₀ hsnap
      have hhead : st ∈ t.todo.head? := by
        rw [htodo]
        rfl
      have hused := huses st hhead
      have hallowed := hquiet t hmem hid st hhead
      -- What the statement did, it does on every database that follows.
      have hspec : ∀ d', (∀ u ∈ t.used, D.follows u s.db d') →
          D.spec (E.view d' t.writes) st c more := by
        intro d' hd'
        refine D.sound _ _ _ _ _ _ (fun u hu => ⟨?_, ?_⟩) hallowed hrun
        · exact follows_view (hseen u (hused hu)) t.writes
        · exact follows_view (hd' u (hused hu)) t.writes
      refine h.put ⟨?_, ?_, nofun⟩ ?_
      · intro d' hd' hI v hserial
        refine hready.restores d' hd' hI v ?_
        rw [E.view_append] at hserial
        rw [htodo]
        exact .next (hspec d' hd') hserial
      · intro d' hd' u hu
        rw [E.view_append]
        refine D.trans u _ _ _ (hready.owned d' hd' u hu) ?_
        refine D.frame _ _ _ _ u (hspec d' hd') fun u' hu' => hu u' ?_
        exact uses_view hused (fun u hu => D.trans u _ _ _ (hseen u hu) (hd' u hu)) hu'
      · intro t' ht' u hu u' hu'
        obtain ⟨hother, hne⟩ := State.mem_others.1 ht'
        exact h.apart t hmem t' hother (Ne.symm hne) u hu u' hu'
    · cases hstep
  · cases hstep

theorem inv_commit {n : ℕ} {s' : State Db Delta Stmt Use} (h : Inv D I s)
    (ht : s.tx? n = some t) (hstep : E.commit s t = some s') : Inv D I s' := by
  obtain ⟨hmem, -⟩ := State.mem_of_tx? ht
  have hready := h.ready t hmem
  rw [commit] at hstep
  split at hstep
  next htodo =>
    cases hstep
    have hself : ∀ u ∈ t.used, D.follows u s.db s.db := fun u _ => D.refl u s.db
    refine ⟨?_, ?_, ?_⟩
    · refine hready.restores s.db hself h.holds _ ?_
      rw [htodo]
      exact .done _
    · intro t' ht'
      obtain ⟨hother, hne⟩ := State.mem_others.1 ht'
      refine (h.ready t' hother).follow fun u hu => hready.owned s.db hself u fun u' hu' => ?_
      exact h.apart t' hother t hmem hne u hu u' hu'
    · intro a ha b hb
      exact h.apart a (State.mem_others.1 ha).1 b (State.mem_others.1 hb).1
  · cases hstep

theorem inv_step [DecidableEq Use] {l : Label Kind Event} {s' : State Db Delta Stmt Use}
    (hprogram : ∀ k, D.Triple I (E.program k) I) (houtside : ∀ d e, I d → I (E.outside d e))
    (h : Inv D I s) (hquiet : E.Apart clash allowed s l) (hstep : E.step s l = some s') :
    Inv D I s' := by
  cases l with
  | outside e =>
    cases hstep
    refine ⟨houtside _ e h.holds, fun t ht => ?_, h.apart⟩
    exact (h.ready t ht).follow fun u _ => D.follows_outside u s.db e
  | begin n k => exact inv_begin h (hprogram k) hstep
  | start n =>
    obtain ⟨t, ht, hstep⟩ := Option.bind_eq_some_iff.1 hstep
    exact inv_start h ht hquiet hstep
  | exec n =>
    obtain ⟨t, ht, hstep⟩ := Option.bind_eq_some_iff.1 hstep
    exact inv_exec h ht hquiet hstep
  | commit n =>
    obtain ⟨t, ht, hstep⟩ := Option.bind_eq_some_iff.1 hstep
    exact inv_commit h ht hstep
  | rollback n =>
    cases hstep
    refine ⟨h.holds, fun t ht => h.ready t (State.mem_others.1 ht).1, ?_⟩
    intro a ha b hb
    exact h.apart a (State.mem_others.1 ha).1 b (State.mem_others.1 hb).1

/-- **The serial rule**: what every program preserves when it runs alone holds of the
database in every run that keeps the transactions apart. -/
theorem holds_of_reachable [DecidableEq Use] {d : Db} (hinit : I d)
    (hprogram : ∀ k, D.Triple I (E.program k) I) (houtside : ∀ d e, I d → I (E.outside d e))
    (h : (E.system d).Reachable (E.Apart clash allowed) s) : I s.db := by
  refine (h.invariant (I := Inv D I) ?_ ?_).holds
  · rintro _ rfl
    exact ⟨hinit, nofun, nofun⟩
  · exact fun s l t hinv hp hstep => inv_step hprogram houtside hinv hp hstep

end Invariant

end Discipline

end Engine

end MailVerdict.Computation
