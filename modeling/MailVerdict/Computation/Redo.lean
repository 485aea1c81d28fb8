import Mathlib.Data.List.Basic

/-!
# Redoing a prefix of a list of writes

`replay write s es` is the state after the writes `es`. Writes that put values
into places, whatever was there, satisfy `LastWriterWins`: of two equal writes the
earlier one is lost under the later one, with any third write between them. That
law alone makes a list of writes idempotent as a whole (`LastWriterWins.redo`),
which is what a log replayed from its start after a crash rests on.
-/

namespace MailVerdict.Computation

universe u v

variable {S : Type u} {E : Type v}

/-- The state after the writes `es`, in order. -/
def replay (write : E → S → S) (s : S) (es : List E) : S :=
  es.foldl (fun s e => write e s) s

@[simp] theorem replay_cons (write : E → S → S) (s : S) (e : E) (es : List E) :
    replay write s (e :: es) = replay write (write e s) es := rfl

theorem replay_append (write : E → S → S) (s : S) (es fs : List E) :
    replay write s (es ++ fs) = replay write (replay write s es) fs := by
  unfold replay
  rw [List.foldl_append]

theorem replay_eq_self {write : E → S → S} {s : S} {es : List E}
    (h : ∀ e ∈ es, write e s = s) : replay write s es = s := by
  induction es with
  | nil => rfl
  | cons e es ih =>
    have hhead : write e s = s := h e List.mem_cons_self
    rw [replay_cons, hhead]
    apply ih
    intro f hf
    exact h f (List.mem_cons_of_mem e hf)

/-- A write hides an earlier equal one, at once and through one other write. -/
structure LastWriterWins (write : E → S → S) : Prop where
  again : ∀ e s, write e (write e s) = write e s
  through : ∀ e e' s, write e (write e' (write e s)) = write e (write e' s)

namespace LastWriterWins

variable {write : E → S → S}

theorem write_replay (h : LastWriterWins write) (e : E) (es : List E) (s : S) :
    write e (replay write (write e s) es) = write e (replay write s es) := by
  induction es generalizing s with
  | nil => exact h.again e s
  | cons y es ih =>
    -- put an `e` behind `y` on both sides; `through` drops the one before `y`
    have hleft := ih (write y (write e s))
    have hright := ih (write y s)
    rw [h.through e y s] at hleft
    show write e (replay write (write y (write e s)) es)
      = write e (replay write (write y s) es)
    rw [← hleft, hright]

theorem replay_of_mem (h : LastWriterWins write) {e : E} {es : List E} (he : e ∈ es) (s : S) :
    replay write (write e s) es = replay write s es := by
  obtain ⟨before, after, rfl⟩ := List.append_of_mem he
  rw [replay_append, replay_append, replay_cons, replay_cons, h.write_replay e before s]

theorem redo_of_subset (h : LastWriterWins write) {es fs : List E} (hsub : ∀ e ∈ es, e ∈ fs)
    (s : S) : replay write (replay write s es) fs = replay write s fs := by
  induction es generalizing s with
  | nil => rfl
  | cons e es ih =>
    have hrest : ∀ f ∈ es, f ∈ fs := fun f hf => hsub f (List.mem_cons_of_mem e hf)
    have hfirst : e ∈ fs := hsub e List.mem_cons_self
    rw [replay_cons, ih hrest (write e s)]
    exact h.replay_of_mem hfirst s

theorem redo (h : LastWriterWins write) (es : List E) (s : S) :
    replay write (replay write s es) es = replay write s es :=
  h.redo_of_subset (fun _ he => he) s

end LastWriterWins

end MailVerdict.Computation
