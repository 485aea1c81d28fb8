import Mathlib.Data.List.Pairwise
import Mathlib.Data.List.Perm.Basic
import Mathlib.Order.MinMax

/-!
# Marks from the front

A list kept in the order its members came, some of them marked. Members are marked from the front
(`markFirst`), leave from anywhere and come in at the end unmarked, so the marked ones are always
the oldest (`Front`), and marking some more leaves unmarked exactly as many as there were, or as
many as the rest of the list (`unmarked_markFirst`): no mark is spent on a member that has one
while another has none.
-/

namespace MailVerdict.Computation.MarkedFront

universe u

variable {α : Type u} {p : α → Bool} {mark : α → α} {l m : List α} {k : ℕ}

/-- Whoever came before a marked member is marked. -/
def Front (p : α → Bool) (l : List α) : Prop := l.Pairwise fun a b => p b = true → p a = true

def unmarked (p : α → Bool) (l : List α) : ℕ := l.countP fun a => !p a

def markFirst (mark : α → α) (k : ℕ) (l : List α) : List α := (l.take k).map mark ++ l.drop k

theorem markFirst_zero : markFirst mark 0 l = l := rfl

theorem markFirst_cons (a : α) : markFirst mark (k + 1) (a :: l) = mark a :: markFirst mark k l :=
  rfl

theorem length_markFirst : (markFirst mark k l).length = l.length := by
  unfold markFirst
  rw [List.length_append, List.length_map, ← List.length_append, List.take_append_drop]

theorem map_markFirst {β : Type u} {f : α → β} (h : ∀ a, f (mark a) = f a) :
    (markFirst mark k l).map f = l.map f := by
  unfold markFirst
  have hmap : ∀ l : List α, (l.map mark).map f = l.map f := fun l => by
    rw [List.map_map]
    exact List.map_congr_left fun a _ => h a
  rw [List.map_append, hmap, ← List.map_append, List.take_append_drop]

theorem mem_markFirst {a : α} (h : a ∈ l) :
    mark a ∈ markFirst mark k l ∨ a ∈ markFirst mark k l := by
  rw [← List.take_append_drop k l, List.mem_append] at h
  rcases h with h | h
  · exact Or.inl (List.mem_append_left _ (List.mem_map_of_mem h))
  · exact Or.inr (List.mem_append_right _ h)

theorem Front.filter (h : Front p l) (q : α → Bool) : Front p (l.filter q) :=
  h.sublist List.filter_sublist

theorem Front.append (h : Front p l) (hm : ∀ a ∈ m, p a = false) : Front p (l ++ m) := by
  unfold Front
  rw [List.pairwise_append]
  refine ⟨h, ?_, ?_⟩
  · exact List.pairwise_of_forall_mem_list fun a _ b hb hmarked => by
      rw [hm b hb] at hmarked
      cases hmarked
  · intro a _ b hb hmarked
    rw [hm b hb] at hmarked
    cases hmarked

theorem Front.markFirst (h : Front p l) (hmark : ∀ a, p (mark a) = true) :
    Front p (markFirst mark k l) := by
  unfold Front MarkedFront.markFirst
  rw [List.pairwise_append]
  refine ⟨?_, h.sublist (List.drop_sublist k l), ?_⟩
  · rw [List.pairwise_map]
    exact List.pairwise_of_forall_mem_list fun a _ b _ _ => hmark a
  · intro a ha b _ _
    obtain ⟨a', -, rfl⟩ := List.mem_map.1 ha
    exact hmark a'

theorem Front.map (h : Front p l) {f : α → α} (hf : ∀ a, p (f a) = p a) : Front p (l.map f) := by
  unfold Front
  rw [List.pairwise_map]
  refine h.imp fun {a b} hab => ?_
  rw [hf, hf]
  exact hab

theorem unmarked_le_length : unmarked p l ≤ l.length := List.countP_le_length

theorem unmarked_eq_length (h : ∀ a ∈ l, p a = false) : unmarked p l = l.length :=
  List.countP_eq_length.2 fun a ha => by rw [h a ha]; rfl

theorem unmarked_markFirst (h : Front p l) (hmark : ∀ a, p (mark a) = true) :
    unmarked p (markFirst mark k l) = min (unmarked p l) (l.length - k) := by
  induction l generalizing k with
  | nil => simp [unmarked, MarkedFront.markFirst]
  | cons a l ih =>
    cases k with
    | zero =>
      rw [markFirst_zero, Nat.sub_zero]
      exact (min_eq_left unmarked_le_length).symm
    | succ k =>
      obtain ⟨hfirst, hrest⟩ := List.pairwise_cons.1 h
      have hmarked : unmarked p (mark a :: MarkedFront.markFirst mark k l)
          = unmarked p (MarkedFront.markFirst mark k l) := by
        simp [unmarked, hmark]
      rw [markFirst_cons, hmarked, ih hrest, List.length_cons, Nat.add_sub_add_right]
      cases hp : p a with
      | true =>
        have hsame : unmarked p (a :: l) = unmarked p l := by simp [unmarked, hp]
        rw [hsame]
      | false =>
        have hnone : ∀ b ∈ l, p b = false := by
          intro b hb
          cases hb' : p b with
          | false => rfl
          | true => rw [hfirst b hb hb'] at hp; cases hp
        have hmore : unmarked p (a :: l) = unmarked p l + 1 := by simp [unmarked, hp]
        rw [hmore, unmarked_eq_length hnone]
        omega

end MailVerdict.Computation.MarkedFront
