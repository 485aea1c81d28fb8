import Mathlib.Algebra.BigOperators.Group.Finset.Piecewise
import Mathlib.Tactic.Abel

/-!
# What a walk adds up to

Events come in order, each about one thing (its key) whose track it changes; the track of a thing is
started by its first event (`fresh`). If each event reports how much a measure of the track changes,
the reports add up to what each track is at the end less what it was at the start (`sum_walk`):
everything between cancels, however the events of different things are mixed.
-/

namespace MailVerdict.Computation.KeyedTracks

universe u v w x

variable {E : Type u} {K : Type v} {S : Type w} [DecidableEq K]
variable (key : E → K) (fresh : E → S) (step : E → S → S)

/-! ## Walking -/

def before (tracks : K → Option S) (e : E) : S := (tracks (key e)).getD (fresh e)

def visit (tracks : K → Option S) (e : E) : K → Option S :=
  Function.update tracks (key e) (some (step e (before key fresh tracks e)))

/-- The events, each with the track it finds. -/
def walk : (K → Option S) → List E → List (E × S)
  | _, [] => []
  | tracks, e :: l => (e, before key fresh tracks e) :: walk (visit key fresh step tracks e) l

def first (l : List E) (k : K) : Option S := (l.find? fun e => decide (key e = k)).map fresh

def last (l : List E) : K → Option S := l.foldl (visit key fresh step) fun _ => none

theorem map_fst_walk (tracks : K → Option S) (l : List E) :
    (walk key fresh step tracks l).map Prod.fst = l := by
  induction l generalizing tracks with
  | nil => rfl
  | cons e l ih => rw [walk, List.map_cons, ih]

section Concat

variable (l : List E) (e : E)

theorem walk_concat (tracks : K → Option S) : walk key fresh step tracks (l ++ [e]) =
    walk key fresh step tracks l ++
      [(e, before key fresh (l.foldl (visit key fresh step) tracks) e)] := by
  induction l generalizing tracks with
  | nil => rfl
  | cons d l ih => rw [List.cons_append, walk, ih, walk, List.foldl_cons, List.cons_append]

theorem last_concat : last key fresh step (l ++ [e]) =
    visit key fresh step (last key fresh step l) e := List.foldl_concat _ _ _ _

theorem first_concat (k : K) : first key fresh (l ++ [e]) k =
    (first key fresh l k).or (if key e = k then some (fresh e) else none) := by
  rw [first, List.find?_append, first]
  cases l.find? fun e => decide (key e = k) with
  | some d => rfl
  | none =>
    rw [Option.none_or, Option.map_none, Option.none_or]
    by_cases hk : key e = k
    · simp [hk]
    · simp [hk]

end Concat

theorem first_eq_none_iff (l : List E) (k : K) :
    first key fresh l k = none ↔ last key fresh step l k = none := by
  induction l using List.reverseRecOn with
  | nil => exact Iff.rfl
  | append_singleton l e ih =>
    rw [first_concat, last_concat, visit, Option.or_eq_none_iff, ih]
    by_cases hk : key e = k
    · subst hk
      simp
    · simp [hk, Function.update_of_ne (Ne.symm hk)]

theorem last_concat_of_ne (l : List E) {e : E} {k : K} (hk : k ≠ key e) :
    last key fresh step (l ++ [e]) k = last key fresh step l k := by
  rw [last_concat, visit, Function.update_of_ne hk]

theorem first_concat_of_ne (l : List E) {e : E} {k : K} (hk : k ≠ key e) :
    first key fresh (l ++ [e]) k = first key fresh l k := by
  rw [first_concat, if_neg (Ne.symm hk), Option.or_none]

/-! ## Adding up -/

variable {M : Type x} [AddCommGroup M] (measure : S → M)

/-- What the last track of a thing measures more than its first. -/
def gain (l : List E) (k : K) : M :=
  (last key fresh step l k).elim 0 measure - (first key fresh l k).elim 0 measure

theorem gain_of_not_mem {l : List E} {k : K} (h : k ∉ l.map key) :
    gain key fresh step measure l k = 0 := by
  have hfirst : first key fresh l k = none := by
    rw [first, Option.map_eq_none_iff, List.find?_eq_none]
    exact fun e he hk => h (List.mem_map.2 ⟨e, he, of_decide_eq_true hk⟩)
  rw [gain, hfirst, (first_eq_none_iff key fresh step l k).1 hfirst]
  exact sub_self _

theorem gain_concat (l : List E) (e : E) :
    gain key fresh step measure (l ++ [e]) (key e) =
      gain key fresh step measure l (key e) +
        (measure (step e (before key fresh (last key fresh step l) e)) -
          measure (before key fresh (last key fresh step l) e)) := by
  have hiff := first_eq_none_iff key fresh step l (key e)
  rw [gain, gain, last_concat, first_concat, visit, Function.update_self, if_pos rfl, before]
  cases hlast : last key fresh step l (key e) with
  | none =>
    rw [hiff.2 hlast]
    simp
  | some t =>
    cases hfirst : first key fresh l (key e) with
    | none => rw [hiff.1 hfirst] at hlast; cases hlast
    | some u =>
      simp

/-- **A walk telescopes**: the changes along it add up to the gain of each thing. -/
theorem sum_walk (l : List E) :
    ((walk key fresh step (fun _ => none) l).map fun x => measure (step x.1 x.2) - measure x.2).sum =
      ∑ k ∈ (l.map key).toFinset, gain key fresh step measure l k := by
  induction l using List.reverseRecOn with
  | nil => rfl
  | append_singleton l e ih =>
    have hkeys : ((l ++ [e]).map key).toFinset = insert (key e) (l.map key).toFinset := by
      ext k
      simp
    have hmem := Finset.mem_insert_self (key e) (l.map key).toFinset
    have hold : ∑ k ∈ insert (key e) (l.map key).toFinset, gain key fresh step measure l k =
        ∑ k ∈ (l.map key).toFinset, gain key fresh step measure l k := by
      refine Finset.sum_insert_of_eq_zero_if_notMem fun hnot => ?_
      exact gain_of_not_mem key fresh step measure fun h => hnot (List.mem_toFinset.2 h)
    have hothers : ∑ k ∈ (insert (key e) (l.map key).toFinset).erase (key e),
        gain key fresh step measure (l ++ [e]) k =
          ∑ k ∈ (insert (key e) (l.map key).toFinset).erase (key e),
            gain key fresh step measure l k := by
      refine Finset.sum_congr rfl fun k hk => ?_
      have hne := (Finset.mem_erase.1 hk).1
      rw [gain, gain, last_concat_of_ne key fresh step l hne, first_concat_of_ne key fresh l hne]
    rw [walk_concat, List.map_append, List.sum_append, ih, hkeys, ← hold,
      ← Finset.add_sum_erase _ _ hmem, ← Finset.add_sum_erase _ _ hmem, hothers, gain_concat]
    simp only [List.map_cons, List.map_nil, List.sum_cons, List.sum_nil, last]
    abel

theorem sum_by_key (value : E → M) (l : List E) {keys : Finset K} (h : ∀ e ∈ l, key e ∈ keys) :
    ∑ k ∈ keys, ((l.filter fun e => decide (key e = k)).map value).sum = (l.map value).sum := by
  induction l with
  | nil => simp
  | cons e l ih =>
    have hsplit : ∀ k, (((e :: l).filter fun e => decide (key e = k)).map value).sum =
        (if key e = k then value e else 0) +
          ((l.filter fun e => decide (key e = k)).map value).sum := by
      intro k
      by_cases hk : key e = k
      · simp [hk]
      · simp [hk]
    simp only [hsplit]
    rw [Finset.sum_add_distrib, Finset.sum_ite_eq, if_pos (h e List.mem_cons_self),
      ih fun d hd => h d (List.mem_cons_of_mem e hd), List.map_cons, List.sum_cons]

end MailVerdict.Computation.KeyedTracks
