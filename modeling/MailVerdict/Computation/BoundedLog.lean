import Mathlib.Data.List.Sort

/-!
# Bounded logs

A log grows at its end and keeps its last `n` entries, so what is retained is a
suffix of what was appended. When the entries carry increasing keys, a suffix
whose oldest key is at most `k` holds every entry with a key above `k`: reading
the log from `k` on misses nothing exactly as long as its oldest entry says so.
-/

namespace MailVerdict.Computation.BoundedLog

universe u

variable {α : Type u}

/-- Append to a log that keeps its last `n` entries. -/
def push (n : ℕ) (l : List α) (x : α) : List α := (l ++ [x]).drop (l.length + 1 - n)

theorem push_suffix {n : ℕ} {l h : List α} (x : α) (hl : l <:+ h) : push n l x <:+ h ++ [x] := by
  obtain ⟨p, rfl⟩ := hl
  have hdrop : push n l x <:+ l ++ [x] := List.drop_suffix _ _
  apply hdrop.trans
  exact ⟨p, by simp⟩

theorem mem_push_self {n : ℕ} (hn : 0 < n) (l : List α) (x : α) : x ∈ push n l x := by
  unfold push
  have hle : l.length + 1 - n ≤ l.length := by omega
  rw [List.drop_append_of_le_length hle]
  simp

variable (key : α → ℕ)

/-- Entries carry strictly increasing keys. -/
def Increasing (h : List α) : Prop := h.Pairwise fun a b => key a < key b

variable {key}

theorem Increasing.concat {h : List α} {x : α} (hh : Increasing key h)
    (hx : ∀ e ∈ h, key e < key x) : Increasing key (h ++ [x]) := by
  unfold Increasing at *
  rw [List.pairwise_append]
  refine ⟨hh, List.pairwise_singleton _ _, ?_⟩
  intro a ha b hb
  rw [List.mem_singleton] at hb
  subst hb
  exact hx a ha

theorem Increasing.sublist {l h : List α} (hh : Increasing key h) (hl : l.Sublist h) :
    Increasing key l :=
  List.Pairwise.sublist hl hh

/-- **Gap detection**: an entry whose key is above the oldest retained key is
retained. -/
theorem Increasing.mem_suffix {l h : List α} {o x : α} (hh : Increasing key h) (hl : l <:+ h)
    (ho : l.head? = some o) (hx : x ∈ h) (hle : key o ≤ key x) : x ∈ l := by
  obtain ⟨p, rfl⟩ := hl
  rcases List.mem_append.1 hx with hxp | hxl
  · have hol : o ∈ l := List.mem_of_head? ho
    have hlt := (List.pairwise_append.1 hh).2.2 x hxp o hol
    omega
  · exact hxl

theorem Increasing.le_getLast {l : List α} {o x : α} (hl : Increasing key l)
    (ho : l.getLast? = some o) (hx : x ∈ l) : key x ≤ key o := by
  obtain ⟨p, rfl⟩ := List.getLast?_eq_some_iff.1 ho
  rcases List.mem_append.1 hx with hxp | hxo
  · exact ((List.pairwise_append.1 hl).2.2 x hxp o (List.mem_singleton_self o)).le
  · rw [List.mem_singleton] at hxo
    rw [hxo]

theorem increasing_of_sorted {l : List α} (hs : l.Pairwise fun a b => key a ≤ key b)
    (hn : l.Nodup) (hinj : ∀ a ∈ l, ∀ b ∈ l, key a = key b → a = b) : Increasing key l := by
  induction l with
  | nil => exact List.Pairwise.nil
  | cons a as ih =>
    obtain ⟨hle, hs⟩ := List.pairwise_cons.1 hs
    obtain ⟨hna, hn⟩ := List.nodup_cons.1 hn
    have htail := ih hs hn fun x hx y hy =>
      hinj x (List.mem_cons_of_mem a hx) y (List.mem_cons_of_mem a hy)
    refine List.pairwise_cons.2 ⟨fun b hb => ?_, htail⟩
    have hne : key a ≠ key b := by
      intro heq
      have hab := hinj a List.mem_cons_self b (List.mem_cons_of_mem a hb) heq
      exact hna (hab ▸ hb)
    have := hle b hb
    omega

end MailVerdict.Computation.BoundedLog
