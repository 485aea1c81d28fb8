import Mathlib.Data.List.Basic

/-!
# Edit scripts over two lists

The opcodes of a sequence matcher: stretches of a first list beside stretches of a second,
each equal, deleted, inserted or replaced. `Leads` is what is promised of them, that they lie
end to end and that an equal stretch is equal; `groupedOpcodes` cuts a script into groups with
`n` lines of context, and `Spans` says what is kept of the script by the groups, the stretches
between them being equal on both sides.
-/

namespace MailVerdict.Computation.EditScript

universe u

variable {α : Type u}

inductive Tag
  | equal
  | delete
  | insert
  | replace
deriving DecidableEq

/-- The first list's `[i1, i2)` beside the second's `[j1, j2)`. -/
structure Opcode where
  tag : Tag
  i1 : ℕ
  i2 : ℕ
  j1 : ℕ
  j2 : ℕ

/-- `l[i:j]`. -/
def slice (l : List α) (i j : ℕ) : List α := (l.drop i).take (j - i)

def Opcode.Tagged (a b : List α) (c : Opcode) : Prop :=
  match c.tag with
  | .equal => slice a c.i1 c.i2 = slice b c.j1 c.j2
  | .delete => c.j1 = c.j2
  | .insert => c.i1 = c.i2
  | .replace => True

/-- The opcode's stretches lie in the two lists and are what its tag says. -/
structure Opcode.Fits (a b : List α) (c : Opcode) : Prop where
  first : c.i1 ≤ c.i2
  second : c.j1 ≤ c.j2
  inFirst : c.i2 ≤ a.length
  inSecond : c.j2 ≤ b.length
  tagged : c.Tagged a b

/-- The opcodes lie end to end from one pair of positions to another. -/
def Leads (a b : List α) : List Opcode → ℕ → ℕ → ℕ → ℕ → Prop
  | [], i, j, i', j' => i = i' ∧ j = j'
  | c :: cs, i, j, i', j' => c.i1 = i ∧ c.j1 = j ∧ c.Fits a b ∧ Leads a b cs c.i2 c.j2 i' j'

/-- An edit script from the first list to the second. -/
def Valid (a b : List α) (cs : List Opcode) : Prop := Leads a b cs 0 0 a.length b.length

/-- An equal stretch between two pairs of positions. -/
structure EqualRun (a b : List α) (i j i' j' : ℕ) : Prop where
  first : i ≤ i'
  second : j ≤ j'
  inFirst : i' ≤ a.length
  inSecond : j' ≤ b.length
  same : slice a i i' = slice b j j'

/-! ## Slices -/

theorem length_slice {l : List α} {i j : ℕ} (h : j ≤ l.length) : (slice l i j).length = j - i := by
  rw [slice, List.length_take, List.length_drop]
  omega

theorem slice_self (l : List α) (i : ℕ) : slice l i i = [] := by
  rw [slice, Nat.sub_self, List.take_zero]

theorem slice_append {l : List α} {i j k : ℕ} (hij : i ≤ j) (hjk : j ≤ k) :
    slice l i j ++ slice l j k = slice l i k := by
  have hdrop : l.drop j = (l.drop i).drop (j - i) := by
    rw [List.drop_drop, Nat.add_sub_of_le hij]
  have hk : k - i = (j - i) + (k - j) := by omega
  rw [slice, slice, slice, hdrop, hk, List.take_add]

theorem slice_zero_length (l : List α) : slice l 0 l.length = l := by
  rw [slice, List.drop_zero, Nat.sub_zero, List.take_length]

/-! ## Equal stretches -/

namespace EqualRun

variable {a b : List α} {i j i' j' k m : ℕ}

theorem refl (hi : i ≤ a.length) (hj : j ≤ b.length) : EqualRun a b i j i j :=
  ⟨Nat.le_refl i, Nat.le_refl j, hi, hj, by rw [slice_self, slice_self]⟩

theorem length_eq (h : EqualRun a b i j i' j') : i' - i = j' - j := by
  have hlen := congrArg List.length h.same
  rwa [length_slice h.inFirst, length_slice h.inSecond] at hlen

theorem trans (h : EqualRun a b i j k m) (h' : EqualRun a b k m i' j') :
    EqualRun a b i j i' j' where
  first := Nat.le_trans h.first h'.first
  second := Nat.le_trans h.second h'.second
  inFirst := h'.inFirst
  inSecond := h'.inSecond
  same := by
    rw [← slice_append h.first h'.first, ← slice_append h.second h'.second, h.same, h'.same]

theorem le (h : EqualRun a b i j i' j') : i ≤ a.length ∧ j ≤ b.length :=
  ⟨Nat.le_trans h.first h.inFirst, Nat.le_trans h.second h.inSecond⟩

theorem cut (h : EqualRun a b i j i' j') {d : ℕ} (hd : i + d ≤ i') :
    EqualRun a b i j (i + d) (j + d) ∧ EqualRun a b (i + d) (j + d) i' j' := by
  have hlen := h.length_eq
  have h1 := h.first
  have h2 := h.second
  have h3 := h.inFirst
  have h4 := h.inSecond
  have hsame := h.same
  rw [← slice_append (Nat.le_add_right i d) hd,
    ← slice_append (Nat.le_add_right j d) (by omega : j + d ≤ j')] at hsame
  have hl : (slice a i (i + d)).length = (slice b j (j + d)).length := by
    rw [length_slice (by omega), length_slice (by omega)]
    omega
  obtain ⟨hleft, hright⟩ := List.append_inj hsame hl
  exact ⟨⟨by omega, by omega, by omega, by omega, hleft⟩, ⟨hd, by omega, h3, h4, hright⟩⟩

end EqualRun

theorem Opcode.Fits.equalRun {a b : List α} {c : Opcode} (h : c.Fits a b) (ht : c.tag = .equal) :
    EqualRun a b c.i1 c.j1 c.i2 c.j2 := by
  refine ⟨h.first, h.second, h.inFirst, h.inSecond, ?_⟩
  have := h.tagged
  rwa [Opcode.Tagged, ht] at this

theorem EqualRun.fits {a b : List α} {i j i' j' : ℕ} (h : EqualRun a b i j i' j') :
    (⟨.equal, i, i', j, j'⟩ : Opcode).Fits a b :=
  ⟨h.first, h.second, h.inFirst, h.inSecond, h.same⟩

/-! ## Scripts end to end -/

theorem leads_append {a b : List α} (cs ds : List Opcode) (i j i' j' : ℕ) :
    Leads a b (cs ++ ds) i j i' j' ↔
      ∃ k m, Leads a b cs i j k m ∧ Leads a b ds k m i' j' := by
  induction cs generalizing i j with
  | nil =>
    constructor
    · intro h
      exact ⟨i, j, ⟨rfl, rfl⟩, h⟩
    · rintro ⟨k, m, ⟨rfl, rfl⟩, h⟩
      exact h
  | cons c cs ih =>
    simp only [List.cons_append, Leads]
    rw [ih]
    constructor
    · rintro ⟨h1, h2, hf, k, m, hc, hd⟩
      exact ⟨k, m, ⟨h1, h2, hf, hc⟩, hd⟩
    · rintro ⟨k, m, ⟨h1, h2, hf, hc⟩, hd⟩
      exact ⟨h1, h2, hf, k, m, hc, hd⟩

theorem leads_singleton {a b : List α} (c : Opcode) (h : c.Fits a b) :
    Leads a b [c] c.i1 c.j1 c.i2 c.j2 := ⟨rfl, rfl, h, rfl, rfl⟩

theorem Leads.le {a b : List α} {cs : List Opcode} {i j i' j' : ℕ} (h : Leads a b cs i j i' j')
    (hi : i ≤ a.length) (hj : j ≤ b.length) : i' ≤ a.length ∧ j' ≤ b.length := by
  induction cs generalizing i j with
  | nil =>
    obtain ⟨rfl, rfl⟩ := h
    exact ⟨hi, hj⟩
  | cons c cs ih =>
    obtain ⟨-, -, hf, hrest⟩ := h
    exact ih hrest hf.inFirst hf.inSecond

/-! ## Groups with context -/

/-- The first opcode, where it is equal, cut down to its last `n`. -/
def trimFirst (n : ℕ) : List Opcode → List Opcode
  | [] => []
  | c :: cs =>
    if c.tag = .equal then ⟨c.tag, max c.i1 (c.i2 - n), c.i2, max c.j1 (c.j2 - n), c.j2⟩ :: cs
    else c :: cs

/-- The last opcode, where it is equal, cut down to its first `n`. -/
def trimLast (n : ℕ) : List Opcode → List Opcode
  | [] => []
  | [c] =>
    if c.tag = .equal then [⟨c.tag, c.i1, min c.i2 (c.i1 + n), c.j1, min c.j2 (c.j1 + n)⟩]
    else [c]
  | c :: d :: cs => c :: trimLast n (d :: cs)

def lastGroup (group : List Opcode) : List (List Opcode) :=
  match group with
  | [] => []
  | [c] => if c.tag = .equal then [] else [[c]]
  | c :: d :: cs => [c :: d :: cs]

/-- The current group ends, and a new one starts, at a long equal stretch. -/
def splitGroups (n : ℕ) : List Opcode → List Opcode → List (List Opcode)
  | [], group => lastGroup group
  | c :: cs, group =>
    if c.tag = .equal ∧ c.i2 - c.i1 > n + n then
      (group ++ [⟨c.tag, c.i1, min c.i2 (c.i1 + n), c.j1, min c.j2 (c.j1 + n)⟩]) ::
        splitGroups n cs [⟨c.tag, max c.i1 (c.i2 - n), c.i2, max c.j1 (c.j2 - n), c.j2⟩]
    else splitGroups n cs (group ++ [c])

/-- The groups of a script, each with `n` of context at most on its sides. -/
def groupedOpcodes (n : ℕ) (codes : List Opcode) : List (List Opcode) :=
  let codes := if codes = [] then [⟨.equal, 0, 1, 0, 1⟩] else codes
  splitGroups n (trimLast n (trimFirst n codes)) []

/-- The groups lead from one pair of positions to another, with equal stretches between them. -/
def Spans (a b : List α) : List (List Opcode) → ℕ → ℕ → ℕ → ℕ → Prop
  | [], i, j, i', j' => EqualRun a b i j i' j'
  | g :: gs, i, j, i', j' => ∃ c cs k m, g = c :: cs ∧ EqualRun a b i j c.i1 c.j1 ∧
      Leads a b g c.i1 c.j1 k m ∧ Spans a b gs k m i' j'

variable {a b : List α}

theorem Spans.prepend {gs : List (List Opcode)} {i j k m i' j' : ℕ} (h : EqualRun a b i j k m)
    (hs : Spans a b gs k m i' j') : Spans a b gs i j i' j' := by
  cases gs with
  | nil => exact h.trans hs
  | cons g gs =>
    obtain ⟨c, cs, k', m', rfl, hrun, hg, hrest⟩ := hs
    exact ⟨c, cs, k', m', rfl, h.trans hrun, hg, hrest⟩

theorem Spans.cons {g : List Opcode} {gs : List (List Opcode)} {i j k m i' j' : ℕ}
    (hi : i ≤ a.length) (hj : j ≤ b.length) (hne : g ≠ []) (hg : Leads a b g i j k m)
    (hs : Spans a b gs k m i' j') : Spans a b (g :: gs) i j i' j' := by
  cases g with
  | nil => exact absurd rfl hne
  | cons c cs =>
    have hstart := hg
    obtain ⟨rfl, rfl, -⟩ := hg
    exact ⟨c, cs, k, m, rfl, .refl hi hj, hstart, hs⟩

theorem spans_lastGroup {group : List Opcode} {i j k m i' j' : ℕ}
    (hi : i ≤ a.length) (hj : j ≤ b.length)
    (hg : Leads a b group i j k m) (hrun : EqualRun a b k m i' j') :
    Spans a b (lastGroup group) i j i' j' := by
  match group, hg with
  | [], hg =>
    obtain ⟨rfl, rfl⟩ := hg
    exact hrun
  | [c], hg =>
    by_cases ht : c.tag = .equal
    · rw [lastGroup, if_pos ht]
      obtain ⟨rfl, rfl, hf, rfl, rfl⟩ := hg
      exact (hf.equalRun ht).trans hrun
    · rw [lastGroup, if_neg ht]
      exact .cons hi hj (List.cons_ne_nil _ _) hg hrun
  | c :: d :: cs, hg => exact .cons hi hj (List.cons_ne_nil _ _) hg hrun

theorem spans_splitGroups (n : ℕ) {codes group : List Opcode} {i j k m p q i' j' : ℕ}
    (hi : i ≤ a.length) (hj : j ≤ b.length) (hg : Leads a b group i j k m)
    (hcodes : Leads a b codes k m p q) (hrun : EqualRun a b p q i' j') :
    Spans a b (splitGroups n codes group) i j i' j' := by
  induction codes generalizing group i j k m with
  | nil =>
    obtain ⟨rfl, rfl⟩ := hcodes
    exact spans_lastGroup hi hj hg hrun
  | cons c cs ih =>
    obtain ⟨rfl, rfl, hf, hrest⟩ := hcodes
    unfold splitGroups
    split
    · rename_i hlong
      obtain ⟨ht, hlen⟩ := hlong
      have hwhole := hf.equalRun ht
      have hside := hwhole.length_eq
      have hfirst := hf.first
      have hsecond := hf.second
      -- The long stretch: `n` end the group, `n` start the next one, the rest is between.
      obtain ⟨hhead, hmid⟩ := hwhole.cut (d := n) (by omega)
      obtain ⟨hgap, htail⟩ := hmid.cut (d := c.i2 - c.i1 - n - n) (by omega)
      have e1 : min c.i2 (c.i1 + n) = c.i1 + n := by omega
      have e2 : min c.j2 (c.j1 + n) = c.j1 + n := by omega
      have e3 : max c.i1 (c.i2 - n) = c.i1 + n + (c.i2 - c.i1 - n - n) := by omega
      have e4 : max c.j1 (c.j2 - n) = c.j1 + n + (c.i2 - c.i1 - n - n) := by omega
      rw [e1, e2, e3, e4, ht]
      have hgroup : Leads a b (group ++ [⟨.equal, c.i1, c.i1 + n, c.j1, c.j1 + n⟩]) i j
          (c.i1 + n) (c.j1 + n) :=
        (leads_append _ _ _ _ _ _).2 ⟨c.i1, c.j1, hg, leads_singleton _ hhead.fits⟩
      have hnext := ih htail.le.1 htail.le.2 (leads_singleton _ htail.fits) hrest
      exact .cons hi hj (by simp) hgroup (.prepend hgap hnext)
    · exact ih hi hj ((leads_append _ _ _ _ _ _).2
        ⟨c.i1, c.j1, hg, leads_singleton c hf⟩) hrest

theorem leads_trimFirst (n : ℕ) {codes : List Opcode} {i j i' j' : ℕ} (hi : i ≤ a.length)
    (hj : j ≤ b.length) (h : Leads a b codes i j i' j') :
    ∃ k m, EqualRun a b i j k m ∧ Leads a b (trimFirst n codes) k m i' j' := by
  cases codes with
  | nil => exact ⟨i, j, .refl hi hj, h⟩
  | cons c cs =>
    by_cases ht : c.tag = .equal
    · rw [trimFirst, if_pos ht]
      obtain ⟨rfl, rfl, hf, hrest⟩ := h
      have hwhole := hf.equalRun ht
      have hside := hwhole.length_eq
      have hfirst := hf.first
      have hsecond := hf.second
      obtain ⟨hgap, htail⟩ := hwhole.cut (d := c.i2 - c.i1 - n) (by omega)
      have e3 : max c.i1 (c.i2 - n) = c.i1 + (c.i2 - c.i1 - n) := by omega
      have e4 : max c.j1 (c.j2 - n) = c.j1 + (c.i2 - c.i1 - n) := by omega
      rw [e3, e4, ht]
      exact ⟨_, _, hgap, rfl, rfl, htail.fits, hrest⟩
    · rw [trimFirst, if_neg ht]
      exact ⟨i, j, .refl hi hj, h⟩

theorem leads_trimLast (n : ℕ) {codes : List Opcode} {i j i' j' : ℕ} (hi : i ≤ a.length)
    (hj : j ≤ b.length) (h : Leads a b codes i j i' j') :
    ∃ k m, Leads a b (trimLast n codes) i j k m ∧ EqualRun a b k m i' j' := by
  induction codes generalizing i j with
  | nil =>
    have hend := h.le hi hj
    exact ⟨i', j', h, .refl hend.1 hend.2⟩
  | cons c cs ih =>
    obtain ⟨hstart, hstart', hf, hrest⟩ := h
    cases cs with
    | nil =>
      obtain ⟨rfl, rfl⟩ := hrest
      by_cases ht : c.tag = .equal
      · rw [trimLast, if_pos ht]
        have hwhole := hf.equalRun ht
        have hside := hwhole.length_eq
        have hfirst := hf.first
        have hsecond := hf.second
        obtain ⟨hhead, hgap⟩ := hwhole.cut (d := min n (c.i2 - c.i1)) (by omega)
        have e1 : min c.i2 (c.i1 + n) = c.i1 + min n (c.i2 - c.i1) := by omega
        have e2 : min c.j2 (c.j1 + n) = c.j1 + min n (c.i2 - c.i1) := by omega
        rw [e1, e2, ht]
        exact ⟨_, _, ⟨hstart, hstart', hhead.fits, rfl, rfl⟩, hgap⟩
      · rw [trimLast, if_neg ht]
        exact ⟨_, _, ⟨hstart, hstart', hf, rfl, rfl⟩, .refl hf.inFirst hf.inSecond⟩
    | cons d cs =>
      obtain ⟨k, m, hlast, hrun⟩ := ih hf.inFirst hf.inSecond hrest
      exact ⟨k, m, ⟨hstart, hstart', hf, hlast⟩, hrun⟩

/-- **What grouping keeps**: the groups of an edit script span both lists, whatever lies
between them being equal on both sides. -/
theorem spans_groupedOpcodes (n : ℕ) {codes : List Opcode} (h : Valid a b codes) :
    Spans a b (groupedOpcodes n codes) 0 0 a.length b.length := by
  have hi := Nat.zero_le a.length
  have hj := Nat.zero_le b.length
  unfold groupedOpcodes
  by_cases hnil : codes = []
  · subst hnil
    obtain ⟨ha, hb⟩ := h
    have hnone : splitGroups n (trimLast n (trimFirst n [⟨.equal, 0, 1, 0, 1⟩])) [] = [] := by
      simp only [trimFirst, trimLast, splitGroups, if_true, List.nil_append, lastGroup, true_and]
      refine if_neg ?_
      omega
    rw [if_pos rfl, hnone, ← ha, ← hb]
    exact .refl hi hj
  · rw [if_neg hnil]
    obtain ⟨k, m, hfront, hcodes⟩ := leads_trimFirst n hi hj h
    obtain ⟨p, q, hcodes, hback⟩ := leads_trimLast n hfront.inFirst hfront.inSecond hcodes
    exact .prepend hfront
      (spans_splitGroups n hfront.inFirst hfront.inSecond ⟨rfl, rfl⟩ hcodes hback)

end MailVerdict.Computation.EditScript
