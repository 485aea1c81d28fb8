import MailVerdict.Computation.KeysetPaging

/-!
# One item a lane, in order

Work waits in order, each item in a lane, and a scan takes every item that is ready and whose
lane nothing has been taken in (`scanLanes`). It takes the first ready item of every lane that
was free (`mem_scanLanes`), so no lane twice (`nodup_scanLanes`). Where items are held back by
more than the scan looks at, it takes the first item of each lane that nothing holds back exactly
when every item it takes is such (`scanLanes_exact`).
-/

namespace MailVerdict.Computation.LaneScan

open Computation.KeysetPaging

universe u v w

variable {α : Type u} {κ : Type v} {K : Type w}

section Scan

variable (ready : α → Prop) [DecidablePred ready] (lane : α → κ) [DecidableEq κ]

def scanLanes : List κ → List α → List α
  | _, [] => []
  | taken, a :: l =>
    if ready a ∧ lane a ∉ taken then a :: scanLanes (lane a :: taken) l
    else scanLanes taken l

end Scan

section First

variable [LinearOrder K] (key : α → K) (lane : α → κ) (ready : α → Prop) (l : List α)

/-- Ready, and no ready item of the lane comes before it. -/
structure FirstReady (a : α) : Prop where
  mem : a ∈ l
  isReady : ready a
  first : ∀ b ∈ l, ready b → lane b = lane a → key a ≤ key b

variable {key lane ready l}

theorem FirstReady.congr {m : List α} {a : α} (hlm : ∀ b, b ∈ l ↔ b ∈ m) :
    FirstReady key lane ready l a ↔ FirstReady key lane ready m a := by
  constructor
  · exact fun h => ⟨(hlm a).1 h.mem, h.isReady, fun b hb => h.first b ((hlm b).2 hb)⟩
  · exact fun h => ⟨(hlm a).2 h.mem, h.isReady, fun b hb => h.first b ((hlm b).1 hb)⟩

end First

section Taken

variable {ready : α → Prop} [DecidablePred ready] {lane : α → κ} [DecidableEq κ]
  {taken : List κ} {l : List α} {a : α}

theorem scanLanes_cons_of_pos (h : ready a ∧ lane a ∉ taken) :
    scanLanes ready lane taken (a :: l) = a :: scanLanes ready lane (lane a :: taken) l := by
  rw [scanLanes, if_pos h]

theorem scanLanes_cons_of_neg (h : ¬(ready a ∧ lane a ∉ taken)) :
    scanLanes ready lane taken (a :: l) = scanLanes ready lane taken l := by
  rw [scanLanes, if_neg h]

theorem lane_of_mem_scanLanes (h : a ∈ scanLanes ready lane taken l) : lane a ∉ taken := by
  induction l generalizing taken with
  | nil => simp [scanLanes] at h
  | cons b l ih =>
    by_cases hb : ready b ∧ lane b ∉ taken
    · rw [scanLanes_cons_of_pos hb, List.mem_cons] at h
      rcases h with rfl | h
      · exact hb.2
      · exact fun htaken => ih h (List.mem_cons_of_mem _ htaken)
    · rw [scanLanes_cons_of_neg hb] at h
      exact ih h

theorem nodup_scanLanes : ((scanLanes ready lane taken l).map lane).Nodup := by
  induction l generalizing taken with
  | nil => simp [scanLanes]
  | cons b l ih =>
    by_cases hb : ready b ∧ lane b ∉ taken
    · rw [scanLanes_cons_of_pos hb, List.map_cons, List.nodup_cons]
      refine ⟨fun hmem => ?_, ih⟩
      obtain ⟨c, hc, hlane⟩ := List.mem_map.1 hmem
      apply lane_of_mem_scanLanes hc
      simp [hlane]
    · rw [scanLanes_cons_of_neg hb]
      exact ih

variable [LinearOrder K] {key : α → K}

theorem mem_scanLanes (hl : InOrder key l) :
    a ∈ scanLanes ready lane taken l ↔ FirstReady key lane ready l a ∧ lane a ∉ taken := by
  induction l generalizing taken with
  | nil =>
    simp only [scanLanes, List.not_mem_nil, false_iff]
    rintro ⟨⟨hmem, _, _⟩, _⟩
    simp at hmem
  | cons b l ih =>
    obtain ⟨habove, hl⟩ := List.pairwise_cons.1 hl
    by_cases hb : ready b ∧ lane b ∉ taken
    · rw [scanLanes_cons_of_pos hb, List.mem_cons, ih hl, List.mem_cons, not_or]
      constructor
      · rintro (rfl | ⟨h, hlane, hfree⟩)
        · refine ⟨⟨List.mem_cons_self, hb.1, fun c hc _ _ => ?_⟩, hb.2⟩
          obtain rfl | hc := List.mem_cons.1 hc
          · exact le_rfl
          · exact (habove c hc).le
        · refine ⟨⟨List.mem_cons_of_mem b h.mem, h.isReady, fun c hc hready hsame => ?_⟩, hfree⟩
          obtain rfl | hc := List.mem_cons.1 hc
          · exact absurd hsame.symm hlane
          · exact h.first c hc hready hsame
      · rintro ⟨h, hfree⟩
        by_cases hab : a = b
        · exact .inl hab
        have hmem : a ∈ l := (List.mem_cons.1 h.mem).resolve_left hab
        refine .inr ⟨⟨hmem, h.isReady, fun c hc => h.first c (List.mem_cons_of_mem b hc)⟩, ?_, hfree⟩
        -- in the lane of `b` it would not be the first
        intro hlane
        have hle := h.first b List.mem_cons_self hb.1 hlane.symm
        exact absurd (habove a hmem) (not_lt_of_ge hle)
    · rw [scanLanes_cons_of_neg hb, ih hl]
      constructor
      · rintro ⟨h, hfree⟩
        refine ⟨⟨List.mem_cons_of_mem b h.mem, h.isReady, fun c hc hready hsame => ?_⟩, hfree⟩
        obtain rfl | hc := List.mem_cons.1 hc
        · exact absurd ⟨hready, hsame ▸ hfree⟩ hb
        · exact h.first c hc hready hsame
      · rintro ⟨h, hfree⟩
        have hmem : a ∈ l := by
          obtain rfl | hmem := List.mem_cons.1 h.mem
          · exact absurd ⟨h.isReady, hfree⟩ hb
          · exact hmem
        exact ⟨⟨hmem, h.isReady, fun c hc => h.first c (List.mem_cons_of_mem b hc)⟩, hfree⟩

omit [DecidablePred ready] [DecidableEq κ] in
theorem exists_firstReady (lane : α → κ) (hl : InOrder key l) (hmem : a ∈ l) (hready : ready a) :
    ∃ b, FirstReady key lane ready l b ∧ lane b = lane a := by
  induction l with
  | nil => simp at hmem
  | cons c l ih =>
    obtain ⟨habove, hl⟩ := List.pairwise_cons.1 hl
    by_cases hc : ready c ∧ lane c = lane a
    · refine ⟨c, ⟨List.mem_cons_self, hc.1, fun b hb _ _ => ?_⟩, hc.2⟩
      obtain rfl | hb := List.mem_cons.1 hb
      · exact le_rfl
      · exact (habove b hb).le
    · have hmem : a ∈ l := by
        obtain rfl | hmem := List.mem_cons.1 hmem
        · exact absurd ⟨hready, rfl⟩ hc
        · exact hmem
      obtain ⟨b, hb, hlane⟩ := ih hl hmem
      refine ⟨b, ⟨List.mem_cons_of_mem c hb.mem, hb.isReady, fun d hd hdready hsame => ?_⟩, hlane⟩
      obtain rfl | hd := List.mem_cons.1 hd
      · exact absurd ⟨hdready, hsame.trans hlane⟩ hc
      · exact hb.first d hd hdready hsame

variable (lane taken) in
theorem scanLanes_exact {ready' : α → Prop} (hl : InOrder key l)
    (himp : ∀ a ∈ l, ready' a → ready a) :
    ((∀ a ∈ scanLanes ready lane taken l, ready' a) ∧
        ∀ a, FirstReady key lane ready' l a → lane a ∉ taken →
          a ∈ scanLanes ready lane taken l) ↔
      ∀ a, FirstReady key lane ready l a → lane a ∉ taken → ready' a := by
  constructor
  · rintro ⟨hsound, _⟩ a ha hfree
    exact hsound a ((mem_scanLanes hl).2 ⟨ha, hfree⟩)
  · intro h
    refine ⟨fun a ha => ?_, fun a ha hfree => ?_⟩
    · obtain ⟨hfirst, hfree⟩ := (mem_scanLanes hl).1 ha
      exact h a hfirst hfree
    · -- the item taken in the lane is ready, so nothing is before it that is
      obtain ⟨b, hb, hlane⟩ := exists_firstReady lane hl ha.mem (himp a ha.mem ha.isReady)
      have hbfree : lane b ∉ taken := hlane ▸ hfree
      have hab : key a ≤ key b := ha.first b hb.mem (h b hb hbfree) hlane
      have hba : key b ≤ key a := hb.first a ha.mem (himp a ha.mem ha.isReady) hlane.symm
      rw [hl.eq_of_key ha.mem hb.mem (le_antisymm hab hba)]
      exact (mem_scanLanes hl).2 ⟨hb, hbfree⟩

end Taken

end MailVerdict.Computation.LaneScan
