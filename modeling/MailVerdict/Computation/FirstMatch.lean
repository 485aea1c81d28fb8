import Mathlib.Data.List.Basic

/-!
# Replacing the first entry a predicate picks

A record kept as a list is often edited through "the first entry that …": the
entry is found, changed, and put back where it was. `replaceFirst p b` is that
write. What a later reader finds depends on the changed entry alone: one that passes
over it before and after finds what it found (`find?_replaceFirst_of_not`), and the
one that found it finds the changed entry while that still matches
(`find?_replaceFirst`).
-/

namespace MailVerdict.Computation

universe u

variable {α : Type u} {p q : α → Bool} {a b : α} {l : List α}

/-- The list with the first entry matching `p` replaced by `b`. -/
def replaceFirst (p : α → Bool) (b : α) : List α → List α
  | [] => []
  | a :: l => if p a then b :: l else a :: replaceFirst p b l

theorem replaceFirst_cons_of_pos (h : p a = true) :
    replaceFirst p b (a :: l) = b :: l := by
  rw [replaceFirst, if_pos h]

theorem replaceFirst_cons_of_neg (h : ¬ p a = true) :
    replaceFirst p b (a :: l) = a :: replaceFirst p b l := by
  rw [replaceFirst, if_neg h]

theorem find?_replaceFirst_of_not (hfound : l.find? p = some a) (ha : q a = false)
    (hb : q b = false) : (replaceFirst p b l).find? q = l.find? q := by
  induction l with
  | nil => simp at hfound
  | cons c l ih =>
    by_cases hc : p c = true
    · rw [List.find?_cons_of_pos hc, Option.some.injEq] at hfound
      subst hfound
      rw [replaceFirst_cons_of_pos hc, List.find?_cons, List.find?_cons, ha, hb]
    · rw [List.find?_cons_of_neg hc] at hfound
      rw [replaceFirst_cons_of_neg hc, List.find?_cons, List.find?_cons, ih hfound]

theorem find?_replaceFirst (hfound : l.find? p = some a) (hb : p b = true) :
    (replaceFirst p b l).find? p = some b := by
  induction l with
  | nil => simp at hfound
  | cons c l ih =>
    by_cases hc : p c = true
    · rw [replaceFirst_cons_of_pos hc, List.find?_cons_of_pos hb]
    · rw [List.find?_cons_of_neg hc] at hfound
      rw [replaceFirst_cons_of_neg hc, List.find?_cons_of_neg hc]
      exact ih hfound

theorem mem_replaceFirst {c : α} (h : c ∈ replaceFirst p b l) : c = b ∨ c ∈ l := by
  induction l with
  | nil => simp [replaceFirst] at h
  | cons d l ih =>
    by_cases hd : p d = true
    · rw [replaceFirst_cons_of_pos hd, List.mem_cons] at h
      exact h.imp_right (List.mem_cons_of_mem d)
    · rw [replaceFirst_cons_of_neg hd, List.mem_cons] at h
      rcases h with rfl | h
      · exact .inr List.mem_cons_self
      · exact (ih h).imp_right (List.mem_cons_of_mem d)

/-- What the old entry had, every entry of the new list has exactly if the new entry and every old
one do. -/
theorem forall_replaceFirst_iff {Q : α → Prop} (hfound : l.find? p = some a) (ha : Q a) :
    (∀ c ∈ replaceFirst p b l, Q c) ↔ Q b ∧ ∀ c ∈ l, Q c := by
  induction l with
  | nil => cases hfound
  | cons d l ih =>
    by_cases hd : p d = true
    · rw [List.find?_cons_of_pos hd, Option.some.injEq] at hfound
      subst hfound
      rw [replaceFirst_cons_of_pos hd, List.forall_mem_cons, List.forall_mem_cons]
      exact and_congr_right fun _ => (and_iff_right ha).symm
    · rw [List.find?_cons_of_neg hd] at hfound
      rw [replaceFirst_cons_of_neg hd, List.forall_mem_cons, List.forall_mem_cons, ih hfound]
      exact and_left_comm

theorem head?_replaceFirst :
    (replaceFirst p b l).head? = l.head?.map fun a => if p a then b else a := by
  cases l with
  | nil => rfl
  | cons c l =>
    by_cases hc : p c = true
    · rw [replaceFirst_cons_of_pos hc, List.head?_cons, List.head?_cons, Option.map_some,
        if_pos hc]
    · rw [replaceFirst_cons_of_neg hc, List.head?_cons, List.head?_cons, Option.map_some,
        if_neg hc]

theorem find?_of_head? (hhead : l.head? = some a) (ha : p a = true) : l.find? p = some a := by
  cases l with
  | nil => cases hhead
  | cons c l =>
    rw [List.head?_cons, Option.some.injEq] at hhead
    subst hhead
    exact List.find?_cons_of_pos ha

end MailVerdict.Computation
