import Mathlib.Data.List.DropRight
import Mathlib.Data.List.Infix

/-!
# Patterns in text

A text is a list of characters. `findAll` goes through a text from the left and takes the
occurrences a scanner sees, each after the end of the one before it; `closed` is a pattern with a
dollar at its end, which also lets a last line feed through; `Whole` is an occurrence that is no
part of a longer find. What a scanner finds stands whole, and in a text that was cut and continued
a whole occurrence stands before the cut, after it or across it.
-/

namespace MailVerdict.Computation.TextPatterns

universe u

variable {α : Type u}

/-! ### Letters -/

/-- The ASCII letter in lower case, every other character as it is. -/
def lowerAscii (c : Char) : Char :=
  if 'A' ≤ c ∧ c ≤ 'Z' then Char.ofNat (c.toNat + 32) else c

/-- The letter a character is in a pattern that ignores case: four characters beyond ASCII count
as an ASCII letter. -/
def foldCase (c : Char) : Char :=
  if c = 'ſ' then 's'
  else if c = '\u212A' then 'k'
  else if c = 'İ' ∨ c = 'ı' then 'i'
  else lowerAscii c

/-- Whitespace as a pattern's `\s` has it. -/
def isSpace (c : Char) : Bool :=
  decide (9 ≤ c.toNat ∧ c.toNat ≤ 13) || decide (28 ≤ c.toNat ∧ c.toNat ≤ 32) ||
    decide (c.toNat ∈ [0x85, 0xA0, 0x1680, 0x2028, 0x2029, 0x202F, 0x205F, 0x3000]) ||
      decide (0x2000 ≤ c.toNat ∧ c.toNat ≤ 0x200A)

def startsWithFold (pat text : List Char) : Bool :=
  pat.isPrefixOf (text.map foldCase)

/-- The text has the pattern somewhere, letters in any case. -/
def searchFold (pat text : List Char) : Bool :=
  text.tails.any fun rest => startsWithFold pat rest

theorem startsWithFold_append {pat text rest : List Char} {c : Char} (hc : foldCase c ∉ pat) :
    startsWithFold pat (text ++ c :: rest) = startsWithFold pat text := by
  rw [Bool.eq_iff_iff, startsWithFold, startsWithFold, List.isPrefixOf_iff_prefix,
    List.isPrefixOf_iff_prefix, List.map_append, List.map_cons]
  constructor
  · intro h
    rcases List.prefix_or_prefix_of_prefix h (List.prefix_append _ _) with h' | ⟨later, hlater⟩
    · exact h'
    · rw [← hlater] at h ⊢
      cases later with
      | nil => rw [List.append_nil]
      | cons d later =>
        obtain ⟨rfl, -⟩ := List.cons_prefix_cons.1 ((List.prefix_append_right_inj _).1 h)
        rw [← hlater] at hc
        exact absurd (List.mem_append_right _ List.mem_cons_self) hc
  · exact fun h => h.trans (List.prefix_append _ _)

theorem head_of_startsWithFold {pat rest : List Char} {c d : Char}
    (h : startsWithFold (d :: pat) (c :: rest) = true) : foldCase c = d := by
  rw [startsWithFold, List.isPrefixOf_iff_prefix, List.map_cons] at h
  exact (List.cons_prefix_cons.1 h).1.symm

/-! ### Searching -/

/-- The occurrences a scanner sees, from the left, each after the end of the one before. A scanner
looks at the start of a text and returns what it found with the length of it; `skip` characters of
the last find are still to be passed. -/
def findAll (scan : List Char → Option (α × ℕ)) : ℕ → List Char → List α
  | _, [] => []
  | skip + 1, _ :: rest => findAll scan skip rest
  | 0, c :: rest =>
    match scan (c :: rest) with
    | some (found, n) => found :: findAll scan (n - 1) rest
    | none => findAll scan 0 rest

theorem exists_of_mem_findAll {scan : List Char → Option (α × ℕ)} {text : List Char} {skip : ℕ}
    {x : α} (h : x ∈ findAll scan skip text) :
    ∃ rest n, rest <:+ text ∧ scan rest = some (x, n) := by
  induction text generalizing skip with
  | nil => simp [findAll] at h
  | cons c text ih =>
    have hlater : ∀ {s : ℕ}, x ∈ findAll scan s text →
        ∃ rest n, rest <:+ c :: text ∧ scan rest = some (x, n) := by
      intro s hs
      obtain ⟨rest, n, hrest, hscan⟩ := ih hs
      exact ⟨rest, n, hrest.trans (List.suffix_cons c text), hscan⟩
    cases skip with
    | succ skip => exact hlater h
    | zero =>
      simp only [findAll] at h
      split at h
      · rename_i found n hscan
        rcases List.mem_cons.1 h with rfl | h
        · exact ⟨c :: text, n, List.suffix_refl _, hscan⟩
        · exact hlater h
      · exact hlater h

/-! ### The end of a pattern -/

/-- `^…$`: the pattern holds of the text, or of the text without the line feed it ends with. -/
def closed (p : List Char → Bool) (text : List Char) : Bool :=
  p text || (decide (text.getLast? = some '\n') && p text.dropLast)

theorem closed_of_no_feed {p : List Char → Bool} {text : List Char}
    (h : text.getLast? ≠ some '\n') : closed p text = p text := by
  unfold closed
  rw [decide_eq_false h, Bool.false_and, Bool.or_false]

def someOf (p : Char → Bool) (text : List Char) : Bool := !text.isEmpty && text.all p

/-- A first character, and then at most `most` of a class. -/
def wordOf (first rest : Char → Bool) (most : ℕ) : List Char → Bool
  | [] => false
  | c :: word => first c && word.all rest && decide (word.length ≤ most)

/-! ### Whole occurrences -/

section Whole

variable {β : Type u} (run trail : β → Bool) (starts : List β → Bool)

/-- No find starts in the run of characters `pre` ends with and goes on into `rest`. -/
def NoEarlier (pre rest : List β) : Prop :=
  ∀ tail ∈ pre.tails, tail ≠ [] → (∀ c ∈ tail, run c = true) → starts (tail ++ rest) = false

instance decidableNoEarlier (pre rest : List β) : Decidable (NoEarlier run starts pre rest) :=
  inferInstanceAs (Decidable (∀ tail ∈ pre.tails, _))

/-- Between `pre` and `post` the text `x` is no part of a longer find: what follows it in its run
of characters are trailing ones, and nothing that starts earlier in its run is a find. -/
def WholeAt (pre x post : List β) : Prop :=
  (∀ c ∈ post.takeWhile run, trail c = true) ∧ NoEarlier run starts pre (x ++ post)

instance decidableWholeAt (pre x post : List β) : Decidable (WholeAt run trail starts pre x post) :=
  inferInstanceAs (Decidable (_ ∧ _))

/-- The text has `x` in it as a whole find. -/
def Whole [DecidableEq β] (x text : List β) : Prop :=
  ∃ pre ∈ text.inits, x <+: text.drop pre.length ∧
    WholeAt run trail starts pre x (text.drop (pre.length + x.length))

instance decidableWhole [DecidableEq β] (x text : List β) :
    Decidable (Whole run trail starts x text) :=
  inferInstanceAs (Decidable (∃ pre ∈ text.inits, _))

/-- A whole find that starts in the first text and ends in the second. -/
def Across (x first second : List β) : Prop :=
  ∃ pre a b post, first = pre ++ a ∧ second = b ++ post ∧ x = a ++ b ∧ a ≠ [] ∧ b ≠ [] ∧
    WholeAt run trail starts pre x post

variable {run trail starts} {x text cut rest : List β} {s : β}

theorem takeWhile_stop (hrun : run s = false) (text rest : List β) :
    (text ++ s :: rest).takeWhile run = text.takeWhile run := by
  induction text with
  | nil => rw [List.nil_append, List.takeWhile_cons, hrun]; rfl
  | cons c text ih => rw [List.cons_append, List.takeWhile_cons, List.takeWhile_cons, ih]

theorem wholeAt_append_iff (hrun : run s = false)
    (hstarts : ∀ t rest, starts (t ++ s :: rest) = starts t) {pre post : List β} :
    WholeAt run trail starts pre x (post ++ s :: rest) ↔ WholeAt run trail starts pre x post := by
  have hsame : ∀ tail,
      starts (tail ++ (x ++ (post ++ s :: rest))) = starts (tail ++ (x ++ post)) := by
    intro tail
    rw [← List.append_assoc x, ← List.append_assoc tail]
    exact hstarts _ _
  unfold WholeAt NoEarlier
  rw [takeWhile_stop hrun]
  simp only [hsame]

theorem wholeAt_cons_iff (hrun : run s = false) {pre mid post : List β} :
    WholeAt run trail starts (pre ++ s :: mid) x post ↔
      WholeAt run trail starts (s :: mid) x post := by
  refine and_congr_right fun _ => ⟨fun h tail htail => h tail ?_, fun h tail htail => ?_⟩
  · exact (List.mem_tails _ _).2 (((List.mem_tails _ _).1 htail).trans (List.suffix_append _ _))
  · intro hne hall
    rcases List.suffix_or_suffix_of_suffix ((List.mem_tails _ _).1 htail)
      (List.suffix_append pre (s :: mid)) with hsuf | hsuf
    · exact h tail ((List.mem_tails _ _).2 hsuf) hne hall
    · -- such a run would have the character in it
      have hs := hall s (hsuf.subset List.mem_cons_self)
      rw [hrun] at hs
      cases hs

variable [DecidableEq β]

theorem whole_iff : Whole run trail starts x text ↔
    ∃ pre post, text = pre ++ (x ++ post) ∧ WholeAt run trail starts pre x post := by
  constructor
  · rintro ⟨pre, hpre, ⟨post, hpost⟩, hat⟩
    obtain ⟨later, rfl⟩ := (List.mem_inits _ _).1 hpre
    rw [List.drop_left] at hpost
    subst hpost
    rw [← List.drop_drop, List.drop_left, List.drop_left] at hat
    exact ⟨pre, post, rfl, hat⟩
  · rintro ⟨pre, post, rfl, hat⟩
    refine ⟨pre, (List.mem_inits _ _).2 (List.prefix_append _ _), ?_, ?_⟩
    · rw [List.drop_left]
      exact List.prefix_append _ _
    · rw [← List.drop_drop, List.drop_left, List.drop_left]
      exact hat

/-- In a text that was cut and goes on with a character no run has, a find that does not start
with that character is whole before the cut, or after it, or lies across it. -/
theorem whole_append_cases (hrun : run s = false)
    (hstarts : ∀ t rest, starts (t ++ s :: rest) = starts t)
    (hx : x ≠ []) (hhead : x.head? ≠ some s)
    (h : Whole run trail starts x (cut ++ s :: rest)) :
    Whole run trail starts x cut ∨ Whole run trail starts x (s :: rest) ∨
      Across run trail starts x cut (s :: rest) := by
  obtain ⟨pre, post, htext, hat⟩ := whole_iff.1 h
  rcases List.append_eq_append_iff.1 htext with ⟨mid, rfl, hmid⟩ | ⟨mid, rfl, hmid⟩
  · -- it starts after the cut
    cases mid with
    | nil =>
      obtain ⟨c, x, rfl⟩ := List.exists_cons_of_ne_nil hx
      obtain ⟨rfl, -⟩ := List.cons.inj hmid
      exact absurd rfl hhead
    | cons c mid =>
      obtain ⟨rfl, rfl⟩ := List.cons.inj hmid
      refine Or.inr (Or.inl (whole_iff.2 ⟨s :: mid, post, rfl, ?_⟩))
      exact (wholeAt_cons_iff hrun).1 hat
  · rcases List.append_eq_append_iff.1 hmid with ⟨later, rfl, rfl⟩ | ⟨later, rfl, hlater⟩
    · -- it ends before the cut
      exact Or.inl (whole_iff.2 ⟨pre, later, rfl, (wholeAt_append_iff hrun hstarts).1 hat⟩)
    · cases later with
      | nil =>
        rw [List.nil_append] at hlater
        subst hlater
        rw [List.append_nil] at hat ⊢
        refine Or.inl (whole_iff.2 ⟨pre, [], by rw [List.append_nil], ?_⟩)
        have hat : WholeAt run trail starts pre mid ([] ++ s :: rest) := hat
        exact (wholeAt_append_iff hrun hstarts).1 hat
      | cons c later =>
        cases mid with
        | nil =>
          obtain ⟨rfl, -⟩ := List.cons.inj hlater
          exact absurd rfl hhead
        | cons d mid =>
          exact Or.inr (Or.inr ⟨pre, d :: mid, c :: later, post, rfl, hlater, rfl,
            List.cons_ne_nil _ _, List.cons_ne_nil _ _, hat⟩)

theorem whole_append_iff (hrun : run s = false)
    (hstarts : ∀ t rest, starts (t ++ s :: rest) = starts t)
    (hx : x ≠ []) (hhead : x.head? ≠ some s) :
    Whole run trail starts x (cut ++ s :: rest) ↔
      Whole run trail starts x cut ∨ Whole run trail starts x (s :: rest) ∨
        Across run trail starts x cut (s :: rest) := by
  constructor
  · exact whole_append_cases hrun hstarts hx hhead
  · rintro (h | h | ⟨pre, a, b, post, rfl, hrest, rfl, -, -, hat⟩)
    · obtain ⟨pre, post, rfl, hat⟩ := whole_iff.1 h
      refine whole_iff.2 ⟨pre, post ++ s :: rest, ?_, (wholeAt_append_iff hrun hstarts).2 hat⟩
      simp only [List.append_assoc]
    · obtain ⟨pre, post, hrest, hat⟩ := whole_iff.1 h
      cases pre with
      | nil =>
        obtain ⟨c, x, rfl⟩ := List.exists_cons_of_ne_nil hx
        obtain ⟨rfl, -⟩ := List.cons.inj hrest
        exact absurd rfl hhead
      | cons c pre =>
        obtain ⟨rfl, hrest⟩ := List.cons.inj hrest
        refine whole_iff.2 ⟨cut ++ s :: pre, post, ?_, (wholeAt_cons_iff hrun).2 hat⟩
        rw [hrest, List.append_assoc, List.cons_append]
    · refine whole_iff.2 ⟨pre, post, ?_, hat⟩
      rw [hrest]
      simp only [List.append_assoc]

end Whole

/-! ### Finds are whole -/

section Finds

variable {scan : List Char → Option (List Char × ℕ)} {run trail : Char → Bool}
  {text pre m : List Char} {c : Char}

/-- What the scanner sees at the start of a text is a find. -/
def seen (scan : List Char → Option (List Char × ℕ)) (text : List Char) : Bool := (scan text).isSome

theorem noEarlier_break {starts : List Char → Bool} (hc : run c = false) (rest : List Char) :
    NoEarlier run starts (pre ++ [c]) rest := by
  intro tail htail hne hall
  rcases List.suffix_concat_iff.1 ((List.mem_tails _ _).1 htail) with rfl | ⟨t, rfl, -⟩
  · exact absurd rfl hne
  · rw [hall c (List.mem_append_right t List.mem_cons_self)] at hc
    cases hc

end Finds

/-! ### Joined fields -/

theorem intercalate_split {β : Type u} (sep : List β) {x : List β} {xs : List (List β)}
    (hx : x ∈ xs) :
    ∃ before after, sep.intercalate xs = before ++ (x ++ after) ∧
      (before = [] ∨ ∃ b, before = b ++ sep) ∧ (after = [] ∨ ∃ a, after = sep ++ a) := by
  induction xs with
  | nil => cases hx
  | cons y ys ih =>
    cases ys with
    | nil =>
      rw [List.mem_singleton] at hx
      subst hx
      refine ⟨[], [], ?_, Or.inl rfl, Or.inl rfl⟩
      rw [List.intercalate_singleton, List.nil_append, List.append_nil]
    | cons z ys =>
      rcases List.mem_cons.1 hx with rfl | hx
      · refine ⟨[], sep ++ sep.intercalate (z :: ys), ?_, Or.inl rfl, Or.inr ⟨_, rfl⟩⟩
        rw [List.intercalate_cons_cons, List.nil_append, List.append_assoc]
      · obtain ⟨before, after, hjoin, hbefore, hafter⟩ := ih hx
        refine ⟨y ++ sep ++ before, after, ?_, Or.inr ?_, hafter⟩
        · rw [List.intercalate_cons_cons, hjoin]
          simp only [List.append_assoc]
        · rcases hbefore with rfl | ⟨b, rfl⟩
          · exact ⟨y, by rw [List.append_nil]⟩
          · exact ⟨y ++ sep ++ b, by simp only [List.append_assoc]⟩

section Fields

variable {β : Type u} {s : β} {a b c d x y : List β}

theorem join_last_inj (hx : s ∉ x) (hy : s ∉ y) (h : a ++ s :: x = b ++ s :: y) :
    a = b ∧ x = y := by
  rcases List.append_eq_append_iff.1 h with ⟨m, rfl, hm⟩ | ⟨m, rfl, hm⟩
  · cases m with
    | nil => exact ⟨(List.append_nil a).symm, (List.cons.inj hm).2⟩
    | cons t m =>
      obtain ⟨-, rfl⟩ := List.cons.inj hm
      exact absurd (List.mem_append_right m List.mem_cons_self) hx
  · cases m with
    | nil => exact ⟨List.append_nil b, (List.cons.inj hm).2.symm⟩
    | cons t m =>
      obtain ⟨-, rfl⟩ := List.cons.inj hm
      exact absurd (List.mem_append_right m List.mem_cons_self) hy

/-- Two pairs of fields join to one text exactly when they are the same, or when one first field
runs on over a separator into what the other has as the start of its second. -/
theorem join_eq_iff :
    a ++ s :: b = c ++ s :: d ↔ (a = c ∧ b = d) ∨ (∃ m, c = a ++ s :: m ∧ b = m ++ s :: d) ∨
      ∃ m, a = c ++ s :: m ∧ d = m ++ s :: b := by
  constructor
  · intro h
    rcases List.append_eq_append_iff.1 h with ⟨m, rfl, hm⟩ | ⟨m, rfl, hm⟩
    · cases m with
      | nil => exact Or.inl ⟨(List.append_nil a).symm, (List.cons.inj hm).2⟩
      | cons t m =>
        obtain ⟨rfl, rfl⟩ := List.cons.inj hm
        exact Or.inr (Or.inl ⟨m, rfl, rfl⟩)
    · cases m with
      | nil => exact Or.inl ⟨List.append_nil c, (List.cons.inj hm).2.symm⟩
      | cons t m =>
        obtain ⟨rfl, rfl⟩ := List.cons.inj hm
        exact Or.inr (Or.inr ⟨m, rfl, rfl⟩)
  · rintro (⟨rfl, rfl⟩ | ⟨m, rfl, rfl⟩ | ⟨m, rfl, rfl⟩)
    · rfl
    · rw [List.append_assoc, List.cons_append]
    · rw [List.append_assoc, List.cons_append]

end Fields

end MailVerdict.Computation.TextPatterns
