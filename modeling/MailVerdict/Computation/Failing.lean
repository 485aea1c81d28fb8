import Mathlib.Data.List.Basic

/-!
# Computations that may fail

A computation followed by another succeeds when both do (`bind_ok`); a list read entry by entry is
the list of what each entry gives (`mapM_ok_iff`).
-/

namespace MailVerdict.Computation.Failing

theorem bind_ok {α β ε : Type} {x : Except ε α} {f : α → Except ε β} {b : β}
    (h : (x >>= f) = .ok b) : ∃ a, x = .ok a ∧ f a = .ok b := by
  cases x with
  | error e => cases h
  | ok a => exact ⟨a, rfl, h⟩

theorem mapM_ok_iff {α β ε : Type} {f : α → Except ε β} {l : List α} {bs : List β} :
    l.mapM f = .ok bs ↔ l.map f = bs.map .ok := by
  induction l generalizing bs with
  | nil =>
    rw [List.mapM_nil]
    cases bs with
    | nil => exact Iff.intro (fun _ => rfl) (fun _ => rfl)
    | cons b bs => exact Iff.intro (fun h => by cases h) (fun h => by cases h)
  | cons a l ih =>
    rw [List.mapM_cons, List.map_cons]
    cases hfa : f a with
    | error e =>
      refine Iff.intro (fun h => by cases h) (fun h => ?_)
      cases bs <;> cases h
    | ok b =>
      constructor
      · intro h
        cases hl : l.mapM f with
        | error e =>
          rw [hl] at h
          cases h
        | ok bs' =>
          rw [hl] at h
          cases h
          rw [ih.1 hl]
          rfl
      · intro h
        cases bs with
        | nil => cases h
        | cons b' bs' =>
          rw [List.map_cons] at h
          injection h with hb hbs
          cases hb
          rw [ih.2 hbs]
          rfl

theorem exists_map_ok {α β ε : Type} {f : α → Except ε β} {l : List α}
    (h : ∀ a ∈ l, ∃ b, f a = .ok b) : ∃ bs : List β, l.map f = bs.map .ok := by
  induction l with
  | nil => exact ⟨[], rfl⟩
  | cons a l ih =>
    obtain ⟨b, hb⟩ := h a (by simp)
    obtain ⟨bs, hbs⟩ := ih fun a' ha' => h a' (by simp [ha'])
    exact ⟨b :: bs, by rw [List.map_cons, List.map_cons, hb, hbs]⟩

theorem map_ok_injective {β ε : Type} {bs bs' : List β}
    (h : bs.map (Except.ok (ε := ε)) = bs'.map .ok) : bs = bs' :=
  List.map_injective_iff.2 (fun _ _ hxy => Except.ok.inj hxy) h

end MailVerdict.Computation.Failing
