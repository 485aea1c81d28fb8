import MailVerdict.Computation.AssocLists
import MailVerdict.Model.WriteAssembly

/-!
# Code references of a write prompt

The documents a prompt shows are numbered in a row, and the markers of a document are rewritten
to its number. A text that shows such a marker shows it because the marker was rewritten or because
the stored text already had it, word for word; in the second case the marker names what the text
says. The mails are dropped before the markers grow by the number.
-/

namespace MailVerdict.Analysis

open Computation.Substitution
open Computation.TextPatterns (findAll)
open Model.Identifiers (Text)
open Model.OrderFacts (Uuid Time BarcodeKey)
open Model.WriteAssembly

variable {ds text ks ns : Text} {start : ℕ} {e : Text × BarcodeKey} {docs : List StoredDocument}

namespace CodeReferences

/-! ## Digits -/

/-- Of the ASCII characters the ten digits are digits, at their value. -/
def AsciiDigits (digit : Char → Option ℕ) : Prop :=
  ∀ c : Char, c.toNat < 128 → digit c = if c.isDigit then some (c.toNat - 48) else none

section
variable {digit : Char → Option ℕ}

theorem isDigit_of_ascii (h : AsciiDigits digit) {c : Char} (hc : c.isDigit = true) :
    isDigit digit c = true := by
  have hlt : c.toNat < 128 := by
    simp only [Char.isDigit, Bool.and_eq_true, decide_eq_true_eq] at hc
    have := UInt32.le_iff_toNat_le.1 hc.2
    exact Nat.lt_of_le_of_lt this (by decide)
  rw [isDigit, h c hlt, if_pos hc]
  rfl

theorem all_toDigits (h : AsciiDigits digit) (n : ℕ) :
    (Nat.toDigits 10 n).all (isDigit digit) = true :=
  List.all_eq_true.2 fun _ hc =>
    isDigit_of_ascii h (Nat.isDigit_of_mem_toDigits (by decide) (by decide) hc)

theorem number_of_ascii (h : AsciiDigits digit) (hds : ∀ c ∈ ds, c.isDigit = true) :
    number digit ds = Nat.ofDigitChars 10 ds 0 := by
  have hfold : ∀ n, ds.foldl (fun n c => 10 * n + (digit c).getD 0) n =
      Nat.ofDigitChars 10 ds n := by
    induction ds with
    | nil => exact fun n => Nat.ofDigitChars_nil.symm
    | cons c ds ih =>
      intro n
      obtain ⟨hc, hrest⟩ := List.forall_mem_cons.1 hds
      have hlt : c.toNat < 128 := by
        simp only [Char.isDigit, Bool.and_eq_true, decide_eq_true_eq] at hc
        exact Nat.lt_of_le_of_lt (UInt32.le_iff_toNat_le.1 hc.2) (by decide)
      rw [List.foldl_cons, ih hrest, Nat.ofDigitChars_cons, h c hlt, if_pos hc]
      rfl
  exact hfold 0

theorem number_toDigits (h : AsciiDigits digit) (n : ℕ) :
    number digit (Nat.toDigits 10 n) = n := by
  rw [number_of_ascii h fun c hc => Nat.isDigit_of_mem_toDigits (by decide) (by decide) hc]
  exact Nat.ofDigitChars_toDigits (by decide) (by decide)

theorem toDigits_ne_nil (n : ℕ) : Nat.toDigits 10 n ≠ [] := by
  have hpos : 0 < (Nat.toDigits 10 n).length := Nat.length_toDigits_pos
  exact List.ne_nil_of_length_pos hpos

theorem run_inj {p : Char → Bool} {a b x y : Text} (ha : a.all p = true) (hb : b.all p = true)
    (hx : ∀ c ∈ x.head?, p c = false) (hy : ∀ c ∈ y.head?, p c = false) (h : a ++ x = b ++ y) :
    a = b ∧ x = y := by
  have htake : ∀ {a x : Text}, a.all p = true → (∀ c ∈ x.head?, p c = false) →
      (a ++ x).takeWhile p = a := by
    intro a x ha hx
    rw [List.takeWhile_append_of_pos (List.all_eq_true.1 ha)]
    cases x with
    | nil => rw [List.takeWhile_nil, List.append_nil]
    | cons c x =>
      have hc : p c = false := hx c rfl
      rw [List.takeWhile_cons_of_neg (by rw [hc]; exact Bool.false_ne_true), List.append_nil]
  have hab : a = b := by rw [← htake ha hx, h, htake hb hy]
  exact ⟨hab, List.append_cancel_left (hab ▸ h)⟩

/-! ## Markers -/

/-- What a marker looks like at its start. -/
theorem markerStart_eq_some (h : AsciiDigits digit) {n : ℕ} :
    markerStart digit text = some (ds, n) ↔
      (∃ post, text = codePrefix ++ 'b' :: (ds ++ ' ' :: post)) ∧ ds ≠ [] ∧
        ds.all (isDigit digit) = true ∧ n = ds.length + 8 := by
  have hspace : isDigit digit ' ' = false := by
    rw [isDigit, h ' ' (by decide)]
    rfl
  have htake : ∀ {ds post : Text}, ds.all (isDigit digit) = true →
      (ds ++ ' ' :: post).takeWhile (isDigit digit) = ds := by
    intro ds post hds
    rw [List.takeWhile_append_of_pos (List.all_eq_true.1 hds),
      List.takeWhile_cons_of_neg (by rw [hspace]; exact Bool.false_ne_true), List.append_nil]
  unfold markerStart
  constructor
  · intro hs
    split at hs
    · rename_i hpre
      obtain ⟨rest, hrest⟩ := List.isPrefixOf_iff_prefix.1 hpre
      have hdrop : text.drop 7 = rest := by
        rw [← hrest]
        rfl
      simp only at hs
      split at hs
      · rename_i hcond
        rw [hdrop] at hs hcond
        obtain ⟨rfl, rfl⟩ := Prod.mk.inj (Option.some.inj hs)
        refine ⟨?_, hcond.1, List.all_takeWhile, by omega⟩
        have hhead : (rest.drop (rest.takeWhile (isDigit digit)).length).head? = some ' ' := by
          rw [← hdrop, List.drop_drop, hdrop]
          exact hcond.2
        obtain ⟨post, hpost⟩ : ∃ post,
            rest.drop (rest.takeWhile (isDigit digit)).length = ' ' :: post := by
          cases hd : rest.drop (rest.takeWhile (isDigit digit)).length with
          | nil => simp [hd] at hhead
          | cons c post =>
            rw [hd, List.head?_cons, Option.some.injEq] at hhead
            exact ⟨post, by rw [hhead]⟩
        refine ⟨post, ?_⟩
        have hsplit : rest.takeWhile (isDigit digit) ++ ' ' :: post = rest := by
          rw [← hpost]
          have hpre := List.prefix_iff_eq_take.1 (List.takeWhile_prefix (isDigit digit) (l := rest))
          calc rest.takeWhile (isDigit digit) ++
                rest.drop (rest.takeWhile (isDigit digit)).length
              = rest.take (rest.takeWhile (isDigit digit)).length ++
                rest.drop (rest.takeWhile (isDigit digit)).length := by rw [← hpre]
            _ = rest := List.take_append_drop _ _
        rw [hsplit, ← hrest]
        rfl
      · exact absurd hs (by simp)
    · exact absurd hs (by simp)
  · rintro ⟨⟨post, rfl⟩, hne, hall, rfl⟩
    have hpre : (codePrefix ++ ['b']).isPrefixOf (codePrefix ++ 'b' :: (ds ++ ' ' :: post)) =
        true := by
      rw [List.isPrefixOf_iff_prefix]
      exact ⟨ds ++ ' ' :: post, rfl⟩
    have hdrop : (codePrefix ++ 'b' :: (ds ++ ' ' :: post)).drop 7 = ds ++ ' ' :: post := rfl
    have hhead : ((codePrefix ++ 'b' :: (ds ++ ' ' :: post)).drop (7 + ds.length)).head? =
        some ' ' := by
      rw [← List.drop_drop, hdrop, List.drop_left]
      rfl
    rw [if_pos hpre]
    simp only [hdrop, htake hall]
    rw [if_pos ⟨hne, hhead⟩]
    congr 2
    omega

theorem bracket_not_digit (h : AsciiDigits digit)
    (hds : ds.all (isDigit digit) = true) : '[' ∉ ds := by
  intro hmem
  have hd := List.all_eq_true.1 hds _ hmem
  rw [isDigit, h '[' (by decide)] at hd
  exact absurd hd (by decide)

theorem headed_markerStart (h : AsciiDigits digit) : Headed '[' (markerStart digit) := by
  intro text ds n hs
  obtain ⟨⟨post, rfl⟩, -, hall, rfl⟩ := (markerStart_eq_some h).1 hs
  refine ⟨['c', 'o', 'd', 'e', ' ', 'b'] ++ ds ++ [' '], post, ?_, ?_, ?_⟩
  · simp [codePrefix]
  · simp
  · have := bracket_not_digit h hall
    simp [this]

/-- `[code d<ks>:b<ns>` at the start of a text, the runs of digits read to their end. -/
def MarkerAt (digit : Char → Option ℕ) (ks ns text : Text) : Prop :=
  ∃ rest, text = codePrefix ++ 'd' :: (ks ++ ':' :: 'b' :: (ns ++ rest)) ∧ ks ≠ [] ∧ ns ≠ [] ∧
    ks.all (isDigit digit) = true ∧ ns.all (isDigit digit) = true ∧
      ∀ c ∈ rest.head?, isDigit digit c = false

def Shows (digit : Char → Option ℕ) (ks ns text : Text) : Prop :=
  ∃ rest, rest <:+ text ∧ MarkerAt digit ks ns rest

theorem shows_cons {c : Char} :
    Shows digit ks ns (c :: text) ↔ MarkerAt digit ks ns (c :: text) ∨ Shows digit ks ns text := by
  constructor
  · rintro ⟨rest, hrest, hat⟩
    rcases List.suffix_cons_iff.1 hrest with rfl | hrest
    · exact .inl hat
    · exact .inr ⟨rest, hrest, hat⟩
  · rintro (hat | ⟨rest, hrest, hat⟩)
    · exact ⟨_, List.suffix_refl _, hat⟩
    · exact ⟨rest, hrest.trans (List.suffix_cons c text), hat⟩

theorem not_shows_nil : ¬ Shows digit ks ns [] := by
  rintro ⟨rest, hrest, rest', heq, -⟩
  rw [List.suffix_nil.1 hrest] at heq
  exact absurd heq (by simp [codePrefix])

theorem head_of_markerAt {c : Char} (h : MarkerAt digit ks ns (c :: text)) : c = '[' := by
  obtain ⟨rest, heq, -⟩ := h
  exact (List.cons.inj heq).1

theorem shows_append {pre : Text} (hpre : '[' ∉ pre) :
    Shows digit ks ns (pre ++ text) ↔ Shows digit ks ns text := by
  induction pre with
  | nil => rfl
  | cons c pre ih =>
    rw [List.mem_cons, not_or] at hpre
    rw [List.cons_append, shows_cons, ih hpre.2]
    exact or_iff_right fun hat => hpre.1 (head_of_markerAt hat).symm

theorem markerAt_congr (h : AsciiDigits digit) {x y : Text}
    (hxy : x.takeWhile (· != '[') = y.takeWhile (· != '['))
    (hat : MarkerAt digit ks ns ('[' :: x)) : MarkerAt digit ks ns ('[' :: y) := by
  obtain ⟨rest, heq, hks, hns, hallk, halln, hhead⟩ := hat
  have hx : x = ['c', 'o', 'd', 'e', ' ', 'd'] ++ ks ++ [':', 'b'] ++ ns ++ rest := by
    have htail := (List.cons.inj heq).2
    simpa using htail
  have hbody : ∀ c ∈ ['c', 'o', 'd', 'e', ' ', 'd'] ++ ks ++ [':', 'b'] ++ ns,
      (c != '[') = true := by
    intro c hc
    rw [bne_iff_ne]
    rintro rfl
    have hk := bracket_not_digit h hallk
    have hn := bracket_not_digit h halln
    simp [hk, hn] at hc
  rw [hx, List.takeWhile_append_of_pos hbody] at hxy
  have hy : y = ['c', 'o', 'd', 'e', ' ', 'd'] ++ ks ++ [':', 'b'] ++ ns ++
      (rest.takeWhile (· != '[') ++ y.dropWhile (· != '[')) := by
    rw [← List.append_assoc, hxy, List.takeWhile_append_dropWhile]
  refine ⟨rest.takeWhile (· != '[') ++ y.dropWhile (· != '['), ?_, hks, hns, hallk, halln, ?_⟩
  · refine (congrArg ('[' :: ·) hy).trans ?_
    simp [codePrefix]
  · intro c hc
    cases hr : rest.takeWhile (· != '[') with
    | cons d tail =>
      rw [hr, List.cons_append, List.head?_cons, Option.mem_some_iff] at hc
      refine hhead c ?_
      cases rest with
      | nil => simp at hr
      | cons d' rest =>
        rw [List.takeWhile_cons] at hr
        split at hr
        · rw [List.head?_cons, Option.mem_some_iff, ← hc]
          exact (List.cons.inj hr).1
        · exact absurd hr (by simp)
    | nil =>
      -- What is left starts at the next bracket.
      rw [hr, List.nil_append] at hc
      have hbracket : c = '[' := by
        cases hd : y.dropWhile (· != '[') with
        | nil => simp [hd] at hc
        | cons d tail =>
          rw [hd, List.head?_cons, Option.mem_some_iff] at hc
          have hnot := List.head_dropWhile_not (· != '[') (l := y) (by rw [hd]; simp)
          simp only [hd, List.head_cons] at hnot
          simpa [hc] using hnot
      rw [hbracket, isDigit, h '[' (by decide)]
      rfl

theorem markerAt_rewritten (h : AsciiDigits digit) (rest : Text) (k : ℕ)
    (hds : ds.all (isDigit digit) = true) (hne : ds ≠ []) :
    MarkerAt digit ks ns
        (codePrefix ++ 'd' :: (Nat.toDigits 10 k ++ ':' :: 'b' :: (ds ++ ' ' :: rest))) ↔
      ks = Nat.toDigits 10 k ∧ ns = ds := by
  have hcolon : isDigit digit ':' = false := by
    rw [isDigit, h ':' (by decide)]
    rfl
  have hspace : isDigit digit ' ' = false := by
    rw [isDigit, h ' ' (by decide)]
    rfl
  have hheads : ∀ {d : Char} {x : Text}, isDigit digit d = false →
      ∀ c ∈ (d :: x).head?, isDigit digit c = false := by
    intro d x hd c hc
    rw [List.head?_cons, Option.mem_some_iff] at hc
    rwa [← hc]
  constructor
  · rintro ⟨rest', heq, -, -, hallk, halln, hhead⟩
    have hcancel := (List.cons.inj (List.append_cancel_left heq)).2
    obtain ⟨hk, htail⟩ :=
      run_inj (all_toDigits h k) hallk (hheads hcolon) (hheads hcolon) hcancel
    have hnum := (List.cons.inj (List.cons.inj htail).2).2
    obtain ⟨hn, -⟩ := run_inj hds halln (hheads hspace) hhead hnum
    exact ⟨hk.symm, hn.symm⟩
  · rintro ⟨rfl, rfl⟩
    exact ⟨' ' :: rest, rfl, toDigits_ne_nil k, hne, all_toDigits h k, hds, hheads hspace⟩

/-- **What a numbered text shows**: its markers under its number, and what it had already. -/
theorem shows_numberMarkers (h : AsciiDigits digit) (text : Text) (k : ℕ) :
    Shows digit ks ns (numberMarkers digit text k) ↔
      Shows digit ks ns text ∨ (ks = Nat.toDigits 10 k ∧ ns ∈ markers digit text) := by
  unfold numberMarkers markers
  induction text using finds_induction (headed_markerStart h) with
  | hnil => simp [replaceAll, findAll, not_shows_nil]
  | hnone c rest hs ih =>
    rw [replaceAll_none hs, findAll_none hs, shows_cons, shows_cons, ih, or_assoc]
    refine or_congr_left ?_
    have hheaded : ∀ ds : Text, ∃ tail,
        codePrefix ++ 'd' :: Nat.toDigits 10 k ++ ':' :: 'b' :: ds ++ [' '] = '[' :: tail :=
      fun ds => ⟨_, rfl⟩
    have hsame := takeWhile_replaceAll (headed_markerStart h) hheaded rest
    constructor
    · intro hat
      obtain rfl := head_of_markerAt hat
      exact markerAt_congr h hsame hat
    · intro hat
      obtain rfl := head_of_markerAt hat
      exact markerAt_congr h hsame.symm hat
  | hfind find post ds hs hmark ih =>
    obtain ⟨⟨post', heq⟩, hne, hall, hlen⟩ := (markerStart_eq_some h).1 hs
    rw [replaceAll_find hs, findAll_find hs]
    have hrender : codePrefix ++ 'd' :: Nat.toDigits 10 k ++ ':' :: 'b' :: ds ++ [' '] =
        '[' :: (['c', 'o', 'd', 'e', ' ', 'd'] ++ Nat.toDigits 10 k ++ [':', 'b'] ++ ds ++
          [' ']) := by
      simp [codePrefix]
    have hfree : '[' ∉ ['c', 'o', 'd', 'e', ' ', 'd'] ++ Nat.toDigits 10 k ++ [':', 'b'] ++ ds ++
        [' '] := by
      have hk := bracket_not_digit h (all_toDigits h k)
      have hd := bracket_not_digit h hall
      simp [hk, hd]
    have hnot : ¬ MarkerAt digit ks ns ('[' :: (find ++ post)) := by
      rintro ⟨rest, hat, -⟩
      rw [heq] at hat
      exact absurd (List.cons.inj (List.append_cancel_left hat)).1 (by decide)
    rw [hrender, List.cons_append, shows_cons, shows_append hfree, ih, shows_cons,
      or_iff_right hnot, shows_append hmark, List.mem_cons]
    have hform : '[' :: (['c', 'o', 'd', 'e', ' ', 'd'] ++ Nat.toDigits 10 k ++ [':', 'b'] ++
        ds ++ [' '] ++ replaceAll (markerStart digit) (fun ds =>
          codePrefix ++ 'd' :: Nat.toDigits 10 k ++ ':' :: 'b' :: ds ++ [' ']) 0 post) =
        codePrefix ++ 'd' :: (Nat.toDigits 10 k ++ ':' :: 'b' :: (ds ++ ' ' ::
          replaceAll (markerStart digit) (fun ds =>
            codePrefix ++ 'd' :: Nat.toDigits 10 k ++ ':' :: 'b' :: ds ++ [' ']) 0 post)) := by
      simp [codePrefix]
    rw [hform, markerAt_rewritten h _ k hall hne]
    tauto

theorem length_numberMarkers (h : AsciiDigits digit) (text : Text) (k : ℕ) :
    (numberMarkers digit text k).length =
      text.length + ((Nat.toDigits 10 k).length + 2) * (markers digit text).length := by
  refine length_replaceAll (headed_markerStart h) (fun text ds n hs => ?_) text
  obtain ⟨-, -, -, rfl⟩ := (markerStart_eq_some h).1 hs
  simp [codePrefix]
  omega

/-! ## Numbering -/

def prompted (digit : Char → Option ℕ) (isoDate : Time → Text) (k : ℕ) (doc : StoredDocument) :
    PromptDocument where
  index := k
  name := doc.filename
  contentType := doc.contentType
  pageCount := doc.pageCount
  method := doc.method
  text := numberMarkers digit doc.text k
  added := added isoDate doc.source

def promptedFrom (digit : Char → Option ℕ) (isoDate : Time → Text) (start : ℕ)
    (docs : List StoredDocument) : List PromptDocument :=
  (docs.zipIdx (start + 1)).map fun d => prompted digit isoDate d.2 d.1

def entryOf (digit : Char → Option ℕ) (k : ℕ) (doc : StoredDocument) (ds : Text) :
    Text × BarcodeKey :=
  (codeKey (Nat.toDigits 10 k) ds, doc.id, (number digit ds : ℤ))

/-- The entry is that of a marker of one of the documents, numbered after `start`. -/
def Noted (digit : Char → Option ℕ) (start : ℕ) (docs : List StoredDocument)
    (e : Text × BarcodeKey) : Prop :=
  ∃ i doc, docs[i]? = some doc ∧ ∃ ds ∈ markers digit doc.text,
    e = entryOf digit (start + i + 1) doc ds

theorem not_noted_nil : ¬ Noted digit start [] e := by
  rintro ⟨i, doc, hdoc, -⟩
  simp at hdoc

theorem noted_cons {doc : StoredDocument} :
    Noted digit start (doc :: docs) e ↔
      (∃ ds ∈ markers digit doc.text, e = entryOf digit (start + 1) doc ds) ∨
        Noted digit (start + 1) docs e := by
  constructor
  · rintro ⟨i, d, hd, ds, hds, rfl⟩
    cases i with
    | zero =>
      rw [List.getElem?_cons_zero, Option.some.injEq] at hd
      exact .inl ⟨ds, hd ▸ hds, hd ▸ rfl⟩
    | succ i =>
      refine .inr ⟨i, d, hd, ds, hds, ?_⟩
      rw [Nat.add_right_comm start 1 i, Nat.add_assoc start i 1]
  · rintro (⟨ds, hds, rfl⟩ | ⟨i, d, hd, ds, hds, rfl⟩)
    · exact ⟨0, doc, rfl, ds, hds, rfl⟩
    · refine ⟨i + 1, d, hd, ds, hds, ?_⟩
      rw [Nat.add_right_comm start 1 i, Nat.add_assoc start i 1]

theorem noted_append {docs' : List StoredDocument} :
    Noted digit start (docs ++ docs') e ↔
      Noted digit start docs e ∨ Noted digit (start + docs.length) docs' e := by
  induction docs generalizing start with
  | nil => exact (or_iff_right not_noted_nil).symm
  | cons doc docs ih =>
    rw [List.cons_append, noted_cons, noted_cons, ih, or_assoc, List.length_cons,
      Nat.add_right_comm, Nat.add_assoc start docs.length 1]

theorem promptedFrom_append (isoDate : Time → Text) (start : ℕ) (docs docs' : List StoredDocument) :
    promptedFrom digit isoDate start (docs ++ docs') =
      promptedFrom digit isoDate start docs ++
        promptedFrom digit isoDate (start + docs.length) docs' := by
  unfold promptedFrom
  rw [List.zipIdx_append, List.map_append, Nat.add_right_comm]

theorem mem_noted_foldl {doc : StoredDocument} {k : ℕ} {found : List Text}
    {codes : List (Text × BarcodeKey)} :
    e ∈ found.foldl (fun codes ds => entryOf digit k doc ds :: codes) codes ↔
      (∃ ds ∈ found, e = entryOf digit k doc ds) ∨ e ∈ codes := by
  induction found generalizing codes with
  | nil => simp
  | cons ds found ih =>
    rw [List.foldl_cons, ih, List.exists_mem_cons_iff, List.mem_cons, or_left_comm, or_assoc]

structure Numbered (digit : Char → Option ℕ) (isoDate : Time → Text) (state : Numbering)
    (docs : List StoredDocument) (shown : List PromptDocument) (after : Numbering) : Prop where
  shown : shown = promptedFrom digit isoDate state.counter docs
  counter : after.counter = state.counter + docs.length
  codes : ∀ e, e ∈ after.codeMap ↔ Noted digit state.counter docs e ∨ e ∈ state.codeMap

theorem numbered_nil (isoDate : Time → Text) (state : Numbering) :
    Numbered digit isoDate state [] [] state where
  shown := rfl
  counter := rfl
  codes := fun _ => (or_iff_right not_noted_nil).symm

theorem numbered_append {isoDate : Time → Text} {state state' state'' : Numbering}
    {docs' : List StoredDocument} {shown shown' : List PromptDocument}
    (h : Numbered digit isoDate state docs shown state')
    (h' : Numbered digit isoDate state' docs' shown' state'') :
    Numbered digit isoDate state (docs ++ docs') (shown ++ shown') state'' where
  shown := by rw [h.shown, h'.shown, promptedFrom_append, h.counter]
  counter := by rw [h'.counter, h.counter, List.length_append, Nat.add_assoc]
  codes := by
    intro e
    rw [h'.codes, h.codes, noted_append, h.counter]
    tauto

theorem numbered_document (isoDate : Time → Text) (state : Numbering) (doc : StoredDocument) :
    Numbered digit isoDate state [doc] [(numberDocument digit isoDate state doc).1]
      (numberDocument digit isoDate state doc).2 where
  shown := rfl
  counter := rfl
  codes := by
    intro e
    rw [noted_cons, or_iff_left not_noted_nil]
    exact mem_noted_foldl

variable (digit) in
theorem numbered_documents (isoDate : Time → Text) (docs : List StoredDocument)
    (state : Numbering) :
    Numbered digit isoDate state docs (numberDocuments digit isoDate state docs).1
      (numberDocuments digit isoDate state docs).2 := by
  induction docs generalizing state with
  | nil => exact numbered_nil isoDate state
  | cons doc docs ih => exact numbered_append (numbered_document isoDate state doc) (ih _)

variable {β : Type}

variable (digit) in
theorem numbered_mails (isoDate : Time → Text) (kept : List (OrderMail β × List StoredDocument))
    (state : Numbering) :
    Numbered digit isoDate state (kept.flatMap Prod.snd)
      ((numberMails digit isoDate state kept).1.flatMap PromptMail.documents)
      (numberMails digit isoDate state kept).2 := by
  induction kept generalizing state with
  | nil => exact numbered_nil isoDate state
  | cons entry kept ih =>
    rw [List.flatMap_cons]
    exact numbered_append (numbered_documents digit isoDate entry.2 state) (ih _)

variable (digit) in
theorem map_mail_numberMails (isoDate : Time → Text)
    (kept : List (OrderMail β × List StoredDocument)) (state : Numbering) :
    (numberMails digit isoDate state kept).1.map PromptMail.mail = kept.map Prod.fst := by
  induction kept generalizing state with
  | nil => rfl
  | cons entry kept ih =>
    rw [List.map_cons, ← ih (numberDocuments digit isoDate state entry.2).2]
    rfl

/-! ## The mails that are left -/

/-- The first and the last of a list, `m` in all, one more of the first where `m` is odd. -/
def ends {α : Type} (m : ℕ) (l : List α) : List α :=
  l.take ((m + 1) / 2) ++ l.drop (l.length - m / 2)

theorem length_ends {α : Type} {m : ℕ} {l : List α} (h : m ≤ l.length) :
    (ends m l).length = m := by
  rw [ends, List.length_append, List.length_take, List.length_drop]
  omega

theorem ends_length {α : Type} (l : List α) : ends l.length l = l := by
  have hsplit : l.length - l.length / 2 = (l.length + 1) / 2 := by omega
  rw [ends, hsplit, List.take_append_drop]

theorem eraseIdx_ends {α : Type} {m : ℕ} {l : List α} (h : m + 1 ≤ l.length) :
    (ends (m + 1) l).eraseIdx ((m + 1) / 2) = ends m l := by
  have htake : (l.take ((m + 1 + 1) / 2)).length = (m + 1 + 1) / 2 := by
    rw [List.length_take]
    omega
  unfold ends
  rcases Nat.even_or_odd m with ⟨a, ha⟩ | ⟨a, ha⟩
  · -- An even number is left: the middle is the last of the first ones.
    have hfirst : (m + 1 + 1) / 2 = a + 1 := by omega
    have hleft : (m + 1) / 2 = a := by omega
    have hlast : m / 2 = a := by omega
    rw [hfirst] at htake ⊢
    rw [hleft, hlast, List.eraseIdx_append_of_lt_length (by omega)]
    congr 1
    rw [List.eraseIdx_eq_take_drop_succ, List.take_take, List.drop_take, Nat.sub_self,
      List.take_zero, List.append_nil, Nat.min_eq_left (Nat.le_succ a)]
  · have hfirst : (m + 1 + 1) / 2 = a + 1 := by omega
    have hleft : (m + 1) / 2 = a + 1 := by omega
    have hlast : m / 2 = a := by omega
    rw [hfirst] at htake ⊢
    rw [hleft, hlast, List.eraseIdx_append_of_length_le (by omega), htake, Nat.sub_self]
    congr 1
    rw [List.eraseIdx_zero, List.tail_drop]
    congr 1
    omega

def keptCount {α : Type} (fits : List α → Bool) (l : List α) : ℕ :=
  Nat.findGreatest (fun m => m ≤ 2 ∨ fits (ends m l) = true) l.length

/-- **The loop over the middle** leaves the largest ends that fit. -/
theorem dropMiddle_eq {α : Type} (fits : List α → Bool) (l : List α) :
    dropMiddle fits l.length l = ends (keptCount fits l) l := by
  have hloop : ∀ m ≤ l.length, dropMiddle fits m (ends m l) =
      ends (Nat.findGreatest (fun m => m ≤ 2 ∨ fits (ends m l) = true) m) l := by
    intro m
    induction m with
    | zero => exact fun _ => rfl
    | succ m ih =>
      intro hm
      rw [dropMiddle, length_ends hm, Nat.findGreatest_succ]
      by_cases hstop : m + 1 ≤ 2 ∨ fits (ends (m + 1) l) = true
      · rw [if_pos hstop, if_neg]
        rintro ⟨hlong, hfits⟩
        rcases hstop with hstop | hstop
        · omega
        · rw [hfits] at hstop
          exact Bool.false_ne_true hstop
      · rw [not_or, Bool.not_eq_true] at hstop
        rw [if_pos ⟨Nat.lt_of_not_le hstop.1, hstop.2⟩, if_neg, eraseIdx_ends hm,
          ih (Nat.le_of_succ_le hm)]
        rw [not_or, Bool.not_eq_true]
        exact hstop
  have hfull := hloop l.length (Nat.le_refl _)
  rwa [ends_length] at hfull

/-! ## The whole input -/

section
variable (digit) (isoDate : Time → Text) (mails : List (OrderMail β))
  (documents : List StoredDocument) (ceiling : ℕ)

/-- The mails that are left, with their documents: as many of the first and the last as fit. -/
def keptMails : List (OrderMail β × List StoredDocument) :=
  ends (keptCount (fitsCeiling ceiling documents)
      (mails.map fun mail => (mail, documentsOf documents mail)))
    (mails.map fun mail => (mail, documentsOf documents mail))

/-- The stored documents a prompt shows, in the order of their numbers. -/
def shownDocuments : List StoredDocument :=
  (keptMails mails documents ceiling).flatMap Prod.snd ++ fileDocuments documents

def promptDocuments (w : WriteInput β) : List PromptDocument :=
  w.mails.flatMap PromptMail.documents ++ w.files

def promptChars (w : WriteInput β) : ℕ :=
  totalBy (fun m => m.mail.body.length + totalBy (fun p => p.text.length) m.documents) w.mails +
    totalBy (fun p => p.text.length) w.files

def markerChars (docs : List StoredDocument) : ℕ :=
  totalBy (fun d : StoredDocument × ℕ =>
    ((Nat.toDigits 10 d.2).length + 2) * (markers digit d.1.text).length) (docs.zipIdx 1)

/-- The document as the prompt shows it, its text with the markers numbered. -/
def Presents (doc : StoredDocument) (p : PromptDocument) : Prop :=
  p.name = doc.filename ∧ p.contentType = doc.contentType ∧ p.pageCount = doc.pageCount ∧
    p.method = doc.method ∧ p.text = numberMarkers digit doc.text p.index

/-- **Every code reference resolves**, and the prompt fits or is as short as it gets. -/
structure Resolves (w : WriteInput β) : Prop where
  shown : List.Forall₂ (Presents digit) (shownDocuments mails documents ceiling) (promptDocuments w)
  numbers : ((promptDocuments w).map PromptDocument.index).Nodup
  markers : ∀ (i : ℕ) (doc : StoredDocument) (p : PromptDocument), (shownDocuments mails documents ceiling)[i]? =
      some doc → (promptDocuments w)[i]? = some p → ∀ ks ns, Shows digit ks ns p.text →
      number digit ks = p.index ∧
        w.codeMap.lookup (codeKey ks ns) = some (doc.id, (number digit ns : ℤ))
  known : ∀ e ∈ w.codeMap, ∃ i doc ns, (shownDocuments mails documents ceiling)[i]? = some doc ∧
    e = entryOf digit (i + 1) doc ns
  fits : promptChars w ≤ ceiling ∨ w.mails.length ≤ 2

/-- No text of a document says a marker with a number but its own and a barcode it marks itself,
and the numbers leave the prompt within the ceiling, or two mails are left. -/
structure Plain : Prop where
  markers : ∀ (i : ℕ) (doc : StoredDocument),
    (shownDocuments mails documents ceiling)[i]? = some doc → ∀ ks ns, Shows digit ks ns doc.text →
      ks = Nat.toDigits 10 (i + 1) ∧ ns ∈ markers digit doc.text
  fits : totalBy chars (keptMails mails documents ceiling) + docChars (fileDocuments documents) +
      markerChars digit (shownDocuments mails documents ceiling) ≤ ceiling ∨
    (keptMails mails documents ceiling).length ≤ 2

end

theorem totalBy_append {α : Type} (f : α → ℕ) (l l' : List α) :
    totalBy f (l ++ l') = totalBy f l + totalBy f l' := by
  induction l with
  | nil => exact (Nat.zero_add _).symm
  | cons x l ih =>
    change f x + totalBy f (l ++ l') = f x + totalBy f l + totalBy f l'
    rw [ih, Nat.add_assoc]

theorem totalBy_add {α : Type} (f g : α → ℕ) (l : List α) :
    totalBy (fun x => f x + g x) l = totalBy f l + totalBy g l := by
  induction l with
  | nil => rfl
  | cons x l ih =>
    change f x + g x + totalBy (fun x => f x + g x) l = f x + totalBy f l + (g x + totalBy g l)
    omega

theorem totalBy_map {α γ : Type} (f : γ → ℕ) (g : α → γ) (l : List α) :
    totalBy f (l.map g) = totalBy (fun x => f (g x)) l := by
  unfold totalBy
  rw [List.foldr_map]

theorem totalBy_flatMap {α γ : Type} (f : γ → ℕ) (g : α → List γ) (l : List α) :
    totalBy f (l.flatMap g) = totalBy (fun x => totalBy f (g x)) l := by
  induction l with
  | nil => rfl
  | cons x l ih =>
    rw [List.flatMap_cons, totalBy_append, ih]
    rfl

theorem totalBy_promptedFrom (h : AsciiDigits digit) (isoDate : Time → Text) (start : ℕ)
    (docs : List StoredDocument) :
    totalBy (fun p => p.text.length) (promptedFrom digit isoDate start docs) =
      docChars docs + totalBy (fun d : StoredDocument × ℕ =>
        ((Nat.toDigits 10 d.2).length + 2) * (markers digit d.1.text).length)
          (docs.zipIdx (start + 1)) := by
  unfold promptedFrom docChars
  induction docs generalizing start with
  | nil => rfl
  | cons doc docs ih =>
    rw [List.zipIdx_cons, List.map_cons]
    change (numberMarkers digit doc.text (start + 1)).length + totalBy _ _ =
      doc.text.length + totalBy _ docs +
        (((Nat.toDigits 10 (start + 1)).length + 2) * (markers digit doc.text).length +
          totalBy _ _)
    rw [length_numberMarkers h, ih (start + 1)]
    omega

section
variable (isoDate : Time → Text) (mails : List (OrderMail β)) (documents : List StoredDocument)
  (ceiling : ℕ)

variable (digit) in
/-- **The input is what is numbered**: the documents left, from 1 on, with no entry before. -/
theorem numbered_assembleWriteInput :
    ∃ after, Numbered digit isoDate ⟨0, []⟩ (shownDocuments mails documents ceiling)
        (promptDocuments (assembleWriteInput digit isoDate mails documents ceiling)) after ∧
      after.codeMap = (assembleWriteInput digit isoDate mails documents ceiling).codeMap ∧
      (assembleWriteInput digit isoDate mails documents ceiling).mails.map PromptMail.mail =
        (keptMails mails documents ceiling).map Prod.fst := by
  have hkept := dropMiddle_eq (fitsCeiling ceiling documents)
    (mails.map fun mail => (mail, documentsOf documents mail))
  have hmails := numbered_mails digit isoDate (keptMails mails documents ceiling) ⟨0, []⟩
  have hfiles := numbered_documents digit isoDate (fileDocuments documents)
    (numberMails digit isoDate ⟨0, []⟩ (keptMails mails documents ceiling)).2
  have hmap := map_mail_numberMails digit isoDate (keptMails mails documents ceiling)
    ⟨0, []⟩
  unfold assembleWriteInput
  simp only [hkept]
  exact ⟨_, numbered_append hmails hfiles, rfl, hmap⟩

end

theorem promptChars_eq (w : WriteInput β) :
    promptChars w = totalBy (fun m : OrderMail β => m.body.length) (w.mails.map PromptMail.mail) +
      totalBy (fun p => p.text.length) (promptDocuments w) := by
  unfold promptChars promptDocuments
  rw [totalBy_append, totalBy_flatMap, totalBy_map, totalBy_add, Nat.add_assoc]

theorem storedChars_eq (kept : List (OrderMail β × List StoredDocument))
    (files : List StoredDocument) :
    totalBy chars kept + docChars files =
      totalBy (fun m : OrderMail β => m.body.length) (kept.map Prod.fst) +
        docChars (kept.flatMap Prod.snd ++ files) := by
  unfold docChars
  rw [totalBy_append, totalBy_flatMap, totalBy_map, ← Nat.add_assoc]
  exact congrArg (· + _) (totalBy_add _ _ kept)

theorem codeKey_inj (h : AsciiDigits digit) {ks' ns' : Text}
    (hks : ks.all (isDigit digit) = true) (hks' : ks'.all (isDigit digit) = true)
    (heq : codeKey ks ns = codeKey ks' ns') : ks = ks' ∧ ns = ns' := by
  have hcolon : ∀ x : Text, ∀ c ∈ (':' :: x).head?, isDigit digit c = false := by
    intro x c hc
    rw [List.head?_cons, Option.mem_some_iff] at hc
    rw [← hc, isDigit, h ':' (by decide)]
    rfl
  obtain ⟨hk, htail⟩ := run_inj hks hks' (hcolon _) (hcolon _) (List.cons.inj heq).2
  exact ⟨hk, (List.cons.inj (List.cons.inj htail).2).2⟩

theorem noted_unique (h : AsciiDigits digit)
    {e' : Text × BarcodeKey} (he : Noted digit start docs e) (he' : Noted digit start docs e')
    (hkey : e.1 = e'.1) : e = e' := by
  obtain ⟨i, doc, hdoc, ds, -, rfl⟩ := he
  obtain ⟨i', doc', hdoc', ds', -, rfl⟩ := he'
  obtain ⟨hk, rfl⟩ := codeKey_inj h (all_toDigits h _) (all_toDigits h _) hkey
  have hindex : start + i + 1 = start + i' + 1 := by
    rw [← number_toDigits h (start + i + 1), hk, number_toDigits h]
  obtain rfl : i = i' := by omega
  rw [Option.some.inj (hdoc.symm.trans hdoc')]

theorem lookup_eq_some_iff_mem_of_unique {l : List (Text × BarcodeKey)} {k : Text}
    {v : BarcodeKey} (hunique : ∀ e ∈ l, ∀ e' ∈ l, e.1 = e'.1 → e = e') :
    l.lookup k = some v ↔ (k, v) ∈ l := by
  induction l with
  | nil => simp
  | cons e l ih =>
    have hrest := ih fun a ha b hb =>
      hunique a (List.mem_cons_of_mem e ha) b (List.mem_cons_of_mem e hb)
    rw [List.lookup_cons, List.mem_cons]
    by_cases hk : k = e.1
    · rw [beq_iff_eq.2 hk]
      constructor
      · intro h
        exact .inl (Prod.ext hk (Option.some.inj h).symm)
      · rintro (rfl | hmem)
        · rfl
        · have heq := hunique _ (List.mem_cons_of_mem e hmem) e List.mem_cons_self hk
          exact congrArg some (congrArg Prod.snd heq).symm
    · rw [beq_eq_false_iff_ne.2 hk, hrest, or_iff_right]
      exact fun heq => hk (congrArg Prod.fst heq)

theorem all_of_shows (h : Shows digit ks ns text) :
    ks.all (isDigit digit) = true := by
  obtain ⟨rest, -, -, -, -, -, hall, -⟩ := h
  exact hall

section
variable {isoDate : Time → Text} {mails : List (OrderMail β)} {documents : List StoredDocument}
  {ceiling : ℕ}

theorem getElem?_promptedFrom (isoDate : Time → Text) (docs : List StoredDocument) (i : ℕ) :
    (promptedFrom digit isoDate 0 docs)[i]? = docs[i]?.map (prompted digit isoDate (i + 1)) := by
  unfold promptedFrom
  rw [List.getElem?_map, List.getElem?_zipIdx, Option.map_map, Nat.zero_add, Nat.add_comm 1 i]
  rfl

theorem shown_assembleWriteInput (docs : List StoredDocument) (start : ℕ) :
    List.Forall₂ (Presents digit) docs (promptedFrom digit isoDate start docs) := by
  induction docs generalizing start with
  | nil => exact .nil
  | cons doc docs ih => exact .cons ⟨rfl, rfl, rfl, rfl, rfl⟩ (ih (start + 1))

theorem index_promptedFrom (docs : List StoredDocument) (start : ℕ) :
    (promptedFrom digit isoDate start docs).map PromptDocument.index =
      List.range' (start + 1) docs.length := by
  unfold promptedFrom
  rw [List.map_map]
  exact List.zipIdx_map_snd ..

theorem promptChars_assembleWriteInput (h : AsciiDigits digit) :
    promptChars (assembleWriteInput digit isoDate mails documents ceiling) =
      totalBy chars (keptMails mails documents ceiling) + docChars (fileDocuments documents) +
        markerChars digit (shownDocuments mails documents ceiling) := by
  obtain ⟨after, hnum, -, hmails⟩ :=
    numbered_assembleWriteInput digit isoDate mails documents ceiling
  rw [promptChars_eq, storedChars_eq, hmails, hnum.shown, totalBy_promptedFrom h, Nat.add_assoc]
  rfl

theorem lookup_assembleWriteInput (h : AsciiDigits digit) {key : Text} {v : BarcodeKey} :
    (assembleWriteInput digit isoDate mails documents ceiling).codeMap.lookup key = some v ↔
      Noted digit 0 (shownDocuments mails documents ceiling) (key, v) := by
  obtain ⟨after, hnum, hcodes, -⟩ :=
    numbered_assembleWriteInput digit isoDate mails documents ceiling
  have hmem : ∀ e, e ∈ after.codeMap ↔
      Noted digit 0 (shownDocuments mails documents ceiling) e := by
    intro e
    rw [hnum.codes]
    exact or_iff_left List.not_mem_nil
  rw [← hcodes, lookup_eq_some_iff_mem_of_unique, hmem]
  intro e he e' he' hkey
  exact noted_unique h ((hmem e).1 he) ((hmem e').1 he') hkey

end

/-- **Every code reference of a write prompt resolves** exactly where the stored texts say no
marker of another number and the numbers leave the prompt within the ceiling. -/
theorem write_input_resolves_iff (digit : Char → Option ℕ) (h : AsciiDigits digit)
    (isoDate : Time → Text) (mails : List (OrderMail β)) (documents : List StoredDocument)
    (ceiling : ℕ) :
    Resolves digit mails documents ceiling
        (assembleWriteInput digit isoDate mails documents ceiling) ↔
      Plain digit mails documents ceiling := by
  obtain ⟨after, hnum, hcodes, hmails⟩ :=
    numbered_assembleWriteInput digit isoDate mails documents ceiling
  have hlen : (assembleWriteInput digit isoDate mails documents ceiling).mails.length =
      (keptMails mails documents ceiling).length := by
    simpa using congrArg List.length hmails
  have hget : ∀ i : ℕ,
      (promptDocuments (assembleWriteInput digit isoDate mails documents ceiling))[i]? =
        (shownDocuments mails documents ceiling)[i]?.map (prompted digit isoDate (i + 1)) := by
    intro i
    rw [hnum.shown]
    exact getElem?_promptedFrom isoDate _ i
  constructor
  · intro hr
    refine ⟨fun i doc hdoc ks ns hshows => ?_, ?_⟩
    · obtain ⟨hk, hlookup⟩ := hr.markers i doc (prompted digit isoDate (i + 1) doc) hdoc
        (by rw [hget, hdoc]; rfl) ks ns ((shows_numberMarkers h doc.text (i + 1)).2 (.inl hshows))
      obtain ⟨i', doc', hdoc', ds, hds, heq⟩ := (lookup_assembleWriteInput h).1 hlookup
      obtain ⟨rfl, rfl⟩ := codeKey_inj h (all_of_shows hshows) (all_toDigits h _)
        (Prod.mk.inj heq).1
      rw [number_toDigits h] at hk
      have hindex : 0 + i' + 1 = i + 1 := hk
      obtain rfl : i' = i := by omega
      rw [hdoc, Option.some.injEq] at hdoc'
      exact ⟨congrArg (Nat.toDigits 10) hindex, hdoc' ▸ hds⟩
    · have hfits := hr.fits
      rwa [promptChars_assembleWriteInput h, hlen] at hfits
  · intro hp
    refine ⟨?_, ?_, ?_, ?_, ?_⟩
    · rw [hnum.shown]
      exact shown_assembleWriteInput _ _
    · rw [hnum.shown, index_promptedFrom]
      exact List.nodup_range'
    · intro i doc p hdoc hshown ks ns hshows
      rw [hget, hdoc, Option.map_some, Option.some.injEq] at hshown
      rw [← hshown] at hshows ⊢
      have hown : ks = Nat.toDigits 10 (i + 1) ∧ ns ∈ markers digit doc.text := by
        rcases (shows_numberMarkers h doc.text (i + 1)).1 hshows with hsaid | hnumbered
        · exact hp.markers i doc hdoc ks ns hsaid
        · exact hnumbered
      refine ⟨by rw [hown.1, number_toDigits h]; rfl, (lookup_assembleWriteInput h).2 ?_⟩
      refine ⟨i, doc, hdoc, ns, hown.2, ?_⟩
      rw [entryOf, Nat.zero_add, hown.1]
    · intro e he
      rw [← hcodes, hnum.codes, or_iff_left List.not_mem_nil] at he
      obtain ⟨i, doc, hdoc, ds, -, heq⟩ := he
      refine ⟨i, doc, ds, hdoc, ?_⟩
      rw [heq, Nat.zero_add]
    · rw [promptChars_assembleWriteInput h, hlen]
      exact hp.fits

end

/-! ## A text that names another ticket's code -/

def asciiDigit (c : Char) : Option ℕ := if c.isDigit then some (c.toNat - 48) else none

theorem asciiDigits_asciiDigit : AsciiDigits asciiDigit := fun _ _ => rfl

def ticketMail : OrderMail Unit := ⟨0, [], [], ()⟩

def ticket (id : Uuid) (text : Text) : StoredDocument :=
  ⟨id, .mail (some 0) (some []), [], [], none, [], text⟩

/-- A ticket with a code, and one whose text says the first one's marker. -/
def tickets : List StoredDocument :=
  [ticket 7 ['[', 'c', 'o', 'd', 'e', ' ', 'b', '1', ' '],
    ticket 8 ['[', 'c', 'o', 'd', 'e', ' ', 'd', '1', ':', 'b', '1', ' ']]

theorem write_input_resolves_ticket :
    AsciiDigits asciiDigit ∧
      (Resolves asciiDigit [ticketMail] (tickets.take 1) writePromptCeilingChars
          (assembleWriteInput asciiDigit (fun _ => []) [ticketMail] (tickets.take 1)
            writePromptCeilingChars) ↔
        Plain asciiDigit [ticketMail] (tickets.take 1) writePromptCeilingChars) :=
  ⟨asciiDigits_asciiDigit, write_input_resolves_iff asciiDigit asciiDigits_asciiDigit (fun _ => [])
    [ticketMail] (tickets.take 1) writePromptCeilingChars⟩

/-- The second ticket shows a marker of the first. -/
theorem write_input_shows_forged_marker :
    AsciiDigits asciiDigit ∧
      ¬ Resolves asciiDigit [ticketMail] tickets writePromptCeilingChars
        (assembleWriteInput asciiDigit (fun _ => []) [ticketMail] tickets
          writePromptCeilingChars) := by
  refine ⟨asciiDigits_asciiDigit, fun hr => ?_⟩
  have hdoc : (shownDocuments [ticketMail] tickets writePromptCeilingChars)[1]? =
      some (ticket 8 ['[', 'c', 'o', 'd', 'e', ' ', 'd', '1', ':', 'b', '1', ' ']) := by decide
  have hshown : (promptDocuments (assembleWriteInput asciiDigit (fun _ => []) [ticketMail] tickets
      writePromptCeilingChars))[1]? =
      some ⟨2, [], [], none, [], ['[', 'c', 'o', 'd', 'e', ' ', 'd', '1', ':', 'b', '1', ' '],
        []⟩ := by decide
  have hown := (hr.markers 1 _ _ hdoc hshown ['1'] ['1']
    ⟨_, List.suffix_refl _, [' '], rfl, by decide, by decide, by decide, by decide, by simp [isDigit,
      asciiDigit]⟩).1
  exact absurd hown (by decide)

end CodeReferences

end MailVerdict.Analysis
