import Mathlib.Data.List.Infix
import Mathlib.Data.List.Perm.Subperm
import MailVerdict.Model.Reply

/-!
# To whom a reply goes

A From that is answered is not split, a Reply-To is cut by quote marks counted without escapes,
and each address is taken by the first pair of angle brackets. `Readable` is the message in which
nothing of this goes wrong, `Telling` one in which going wrong shows.
-/

namespace MailVerdict.Analysis.ReplyRecipients

open Model.Reply

/-- Whether `splitAddressHeader` stands in quotes and in angle brackets behind a text, when it
cuts nowhere in it. -/
def scan : Bool → Bool → Text → Option (Bool × Bool)
  | inQuotes, inAngle, [] => some (inQuotes, inAngle)
  | inQuotes, inAngle, char :: rest =>
    if char = '\x22' then scan (!inQuotes) inAngle rest
    else if char = '<' ∧ inQuotes = false then scan inQuotes true rest
    else if char = '>' ∧ inQuotes = false then scan inQuotes false rest
    else if (char = ',' ∨ char = ';') ∧ inQuotes = false ∧ inAngle = false then none
    else scan inQuotes inAngle rest

/-- No mailbox has a comma or semicolon outside quotes and angle brackets, as they are counted,
and each one but the last leaves both closed. -/
def Splits : List Mailbox → Prop
  | [] => True
  | [x] => (scan false false x.text).isSome
  | x :: y :: boxes => scan false false x.text = some (false, false) ∧ Splits (y :: boxes)

/-- An angle bracket that is closed later on, and not at once. -/
def bracketed : Text → Bool
  | [] => false
  | c :: rest =>
    (decide (c = '<') && (rest.head? != some '>') && rest.contains '>') || bracketed rest

def closesAtOnce : Text → Bool
  | [] => true
  | c :: rest => (decide (c ≠ '<') || decide (rest.head? = some '>')) && closesAtOnce rest

/-- The first text in angle brackets, if there is one, is the address. -/
def Reads : Mailbox → Prop
  | .bare a => bracketed a.text = false
  | .named p a => closesAtOnce (phraseText p) = true ∧ '>' ∉ a.text

def answered (m : Headers) : List Mailbox := if m.replyTo = [] then m.sender else m.replyTo

structure Readable (m : Headers) (own : List AddrSpec) (mode : Mode) : Prop where
  oneSender : m.replyTo = [] → m.sender.length ≤ 1
  splits : Splits m.replyTo
  answered : ∀ x ∈ answered m, Reads x
  others : mode = .replyAll → ∀ x ∈ m.toBoxes ++ m.ccBoxes, Reads x
  own : mode = .replyAll → ∀ a ∈ own, bracketed a.text = false

def addrTexts (boxes : List Mailbox) : List Text := boxes.map fun x => x.addr.text

/-- No address of `keys` stands in the display name, or in the mailbox beside its own. -/
def NoEcho (lower : Text → Text) (keys : List Text) (x : Mailbox) : Prop :=
  ∀ t, lower t ∈ keys → ¬ t <:+: phraseText x.phrase ∧ (t <:+: x.text → t = x.addr.text)

/-- The messages in which a misreading cannot come out right by chance: the senders differ, the
Reply-To is cut as it is written, the own addresses are read, and no address stands in another
place than its own. -/
structure Telling (lower : Text → Text) (m : Headers) (own : List AddrSpec) (mode : Mode) :
    Prop where
  senders : m.replyTo = [] → (m.sender.map fun x => lower x.addr.text).Nodup
  splits : Splits m.replyTo
  noEcho : ∀ x ∈ m.mailboxes,
    NoEcho lower ((addrTexts m.mailboxes ++ own.map AddrSpec.text).map lower) x
  own : mode = .replyAll → ∀ a ∈ own, bracketed a.text = false

structure Named (lower : Text → Text) (excluded addrs out : List Text) : Prop where
  inOrder : out.Sublist addrs
  once : (out.map lower).Nodup
  exactly : ∀ k, k ∈ out.map lower ↔ k ∈ addrs.map lower ∧ k ∉ excluded

structure Addressed (lower : Text → Text) (m : Headers) (own : List AddrSpec) (mode : Mode)
    (d : ReplyDraft) : Prop where
  toNamed : Named lower [] (addrTexts (answered m)) d.toAddrs
  ccNamed : mode = .replyAll → Named lower (own.map (fun a => lower a.text) ++ d.toAddrs.map lower)
    (addrTexts (m.toBoxes ++ m.ccBoxes)) d.cc
  ccEmpty : mode = .reply → d.cc = []
  nobodyElse : ∀ r ∈ d.toAddrs ++ d.cc, ∃ x ∈ m.mailboxes, r = x.addr.text

/-! ### The first text in angle brackets -/

theorem takeWhile_closing {t : Text} (h : '>' ∉ t) (rest : Text) :
    (t ++ '>' :: rest).takeWhile (· ≠ '>') = t := by
  rw [List.takeWhile_append_of_pos fun c hc => by simpa using fun he : c = '>' => h (he ▸ hc)]
  simp

/-- The text that is taken is a part of the whole, shorter and without a closing bracket. -/
theorem angleMatch_some {t m : Text} (h : angleMatch t = some m) :
    m <:+: t ∧ m.length < t.length ∧ m ≠ [] ∧ '>' ∉ m := by
  induction t with
  | nil => cases h
  | cons c t ih =>
    simp only [angleMatch] at h
    split at h
    · rename_i hc
      obtain rfl := Option.some.inj h
      have hstart : t.takeWhile (· ≠ '>') <+: t := List.takeWhile_prefix _
      refine ⟨hstart.isInfix.trans (List.suffix_cons c t).isInfix, ?_, hc.2.1, fun hmem => ?_⟩
      · have hlen := hstart.length_le
        simp only [List.length_cons]
        omega
      · simpa using List.mem_takeWhile_imp hmem
    · obtain ⟨hwithin, hlen, hrest⟩ := ih h
      refine ⟨hwithin.trans (List.suffix_cons c t).isInfix, ?_, hrest⟩
      simp only [List.length_cons]
      omega

/-- A text is taken exactly where one is bracketed. -/
theorem angleMatch_eq_none_iff {t : Text} : angleMatch t = none ↔ bracketed t = false := by
  induction t with
  | nil => exact ⟨fun _ => rfl, fun _ => rfl⟩
  | cons c t ih =>
    have hinner : t.takeWhile (· ≠ '>') ≠ [] ∧ '>' ∈ t ↔ t.head? ≠ some '>' ∧ '>' ∈ t := by
      cases t with
      | nil => simp
      | cons d t => by_cases hd : d = '>' <;> simp [hd]
    simp only [angleMatch, bracketed]
    split
    · rename_i hc
      simpa using fun h => absurd (hinner.1 hc.2) (by simpa [hc.1] using h)
    · rename_i hskip
      rw [ih]
      grind

theorem angleMatch_named {t a : Text} (ht : closesAtOnce t = true) (ha : '>' ∉ a) (hne : a ≠ []) :
    angleMatch (t ++ '<' :: a ++ ['>']) = some a := by
  induction t with
  | nil =>
    have hinner := takeWhile_closing ha []
    simp only [List.nil_append, List.cons_append, angleMatch, hinner]
    rw [if_pos ⟨trivial, hne, by simp⟩]
  | cons c t ih =>
    simp only [closesAtOnce, Bool.and_eq_true, Bool.or_eq_true, decide_eq_true_eq] at ht
    have hskip : ¬ (c = '<' ∧ (t ++ '<' :: a ++ ['>']).takeWhile (· ≠ '>') ≠ [] ∧
        '>' ∈ t ++ '<' :: a ++ ['>']) := by
      rintro ⟨hc, hinner, -⟩
      have hhead := ht.1.resolve_left (by simp [hc])
      cases t with
      | nil => cases hhead
      | cons d t =>
        obtain rfl := Option.some.inj hhead
        simp at hinner
    simp only [List.cons_append, angleMatch]
    rw [if_neg (by simpa using hskip)]
    simpa using ih ht.2

/-- A bracket that the display name leaves open takes a text of the name, or more than the
address. -/
theorem angleMatch_name {t a : Text} (ht : closesAtOnce t = false) :
    ∃ m, angleMatch (t ++ '<' :: a ++ ['>']) = some m ∧
      (m <:+: t ∨ '>' ∈ a ∨ a.length < m.length) := by
  induction t with
  | nil => cases ht
  | cons c t ih =>
    simp only [List.cons_append, angleMatch]
    split
    · refine ⟨_, rfl, ?_⟩
      by_cases hin : '>' ∈ t
      · obtain ⟨l, r, rfl, hl⟩ := List.eq_append_cons_of_mem hin
        rw [List.append_assoc, List.append_assoc, List.cons_append, takeWhile_closing hl]
        exact .inl ⟨[c], '>' :: r, by simp⟩
      · by_cases ha : '>' ∈ a
        · exact .inr (.inl ha)
        · refine .inr (.inr ?_)
          have hopen : '>' ∉ t ++ '<' :: a := by simp [hin, ha]
          rw [takeWhile_closing hopen []]
          simp only [List.length_append, List.length_cons]
          omega
    · rename_i hskip
      simp only [closesAtOnce, Bool.and_eq_false_iff, Bool.or_eq_false_iff,
        decide_eq_false_iff_not, not_not] at ht
      rcases ht with ⟨hc, hhead⟩ | ht
      · refine absurd ⟨hc, ?_, by simp⟩ hskip
        cases t with
        | nil => simp
        | cons d t =>
          have hd : d ≠ '>' := fun he => hhead (by rw [he]; rfl)
          simp [hd]
      · obtain ⟨m, hm, hwhere⟩ := ih ht
        refine ⟨m, hm, hwhere.imp_left fun hwithin => ?_⟩
        exact hwithin.trans (List.suffix_cons c t).isInfix

/-! ### Mailboxes -/

theorem wordChar_special {c : Char} (h : wordChar c = true) :
    c ∉ [',', ';'] ∧ c ≠ '>' ∧ blank c = false := by
  simp only [wordChar, Bool.and_eq_true, decide_eq_true_eq, Bool.not_eq_true', List.mem_cons,
    List.not_mem_nil, or_false, not_or] at h
  obtain ⟨hblank, -, -, hclose, hcomma, hsemi, -⟩ := h
  exact ⟨by simp [hcomma, hsemi], hclose, hblank⟩

theorem Word.head_text (w : Word) : ∃ c t, w.text = c :: t ∧ blank c = false ∧ c ∉ [',', ';'] := by
  cases w with
  | atom a =>
    obtain ⟨c, t, htext⟩ := List.exists_cons_of_ne_nil a.nonempty
    obtain ⟨hstop, -, hblank⟩ := wordChar_special (a.plain c (by simp [htext]))
    exact ⟨c, t, htext, hblank, hstop⟩
  | quoted content => exact ⟨_, _, rfl, rfl, by simp⟩

theorem AddrSpec.head_text (a : AddrSpec) :
    ∃ c t, a.text = c :: t ∧ blank c = false ∧ c ∉ [',', ';'] := by
  obtain ⟨c, t, htext, h⟩ := Word.head_text a.localPart
  exact ⟨c, t ++ '@' :: a.domain.text, by rw [AddrSpec.text, htext]; rfl, h⟩

theorem Mailbox.head_text (x : Mailbox) :
    ∃ c t, x.text = c :: t ∧ blank c = false ∧ c ∉ [',', ';'] := by
  cases x with
  | bare a => exact AddrSpec.head_text a
  | named p a =>
    cases p with
    | nil => exact ⟨_, _, rfl, rfl, by simp⟩
    | cons w p =>
      obtain ⟨c, t, htext, h⟩ := Word.head_text w
      exact ⟨c, _, by simp only [Mailbox.text, phraseText, List.flatMap_cons, htext]; rfl, h⟩

theorem Mailbox.last_text (x : Mailbox) : ∃ t c, x.text = t ++ [c] ∧ blank c = false := by
  cases x with
  | bare a =>
    obtain ⟨t, c, htext⟩ := List.eq_nil_or_concat a.domain.text |>.resolve_left a.domain.nonempty
    refine ⟨a.localPart.text ++ '@' :: t, c, ?_,
      (wordChar_special (a.domain.plain c (by simp [htext]))).2.2⟩
    simp [Mailbox.text, AddrSpec.text, htext]
  | named p a => exact ⟨_, _, rfl, rfl⟩

/-- What the code takes for the address of a mailbox. -/
def readAs (x : Mailbox) : Text := extractEmail (some x.text)

theorem readAs_within (x : Mailbox) : readAs x <:+: x.text := by
  rw [readAs, extractEmail]
  cases hm : angleMatch x.text with
  | none => exact List.infix_rfl
  | some m => exact (angleMatch_some hm).1

theorem readAs_ne_nil (x : Mailbox) : readAs x ≠ [] := by
  rw [readAs, extractEmail]
  cases hm : angleMatch x.text with
  | none =>
    obtain ⟨c, t, htext, -⟩ := Mailbox.head_text x
    simp [htext]
  | some m => exact (angleMatch_some hm).2.2.1

theorem readAs_of_reads {x : Mailbox} (h : Reads x) : readAs x = x.addr.text := by
  cases x with
  | bare a =>
    rw [readAs, extractEmail, Mailbox.text, angleMatch_eq_none_iff.2 h]
    rfl
  | named p a =>
    obtain ⟨c, t, htext, -⟩ := AddrSpec.head_text a
    rw [readAs, extractEmail, Mailbox.text, angleMatch_named h.1 h.2 (by simp [htext])]
    rfl

/-- Conversely, when the display name does not happen to hold the address. -/
theorem reads_of_readAs {x : Mailbox} (h : readAs x = x.addr.text)
    (hphrase : ¬ x.addr.text <:+: phraseText x.phrase) : Reads x := by
  rw [readAs, extractEmail] at h
  cases x with
  | bare a =>
    refine angleMatch_eq_none_iff.1 ?_
    cases hm : angleMatch a.text with
    | none => rfl
    | some m =>
      have hlen := (angleMatch_some hm).2.1
      rw [Mailbox.text, hm, Option.getD_some] at h
      rw [h, Mailbox.addr] at hlen
      omega
  | named p a =>
    have hread : angleMatch (Mailbox.named p a).text = some a.text := by
      cases hm : angleMatch (Mailbox.named p a).text with
      | none =>
        have hlen := congrArg List.length h
        rw [hm] at hlen
        simp only [Option.getD_none, Mailbox.text, Mailbox.addr, List.length_append,
          List.length_cons] at hlen
        omega
      | some m => rw [hm, Option.getD_some] at h; rw [h]; rfl
    have hclose := (angleMatch_some hread).2.2.2
    refine ⟨?_, hclose⟩
    by_contra hopen
    obtain ⟨m, hm, hwhere⟩ := angleMatch_name (a := a.text) (Bool.eq_false_iff.2 hopen)
    obtain rfl : a.text = m := Option.some.inj (hread.symm.trans hm)
    rcases hwhere with hwithin | hin | hlen
    · exact hphrase hwithin
    · exact hclose hin
    · omega

/-! ### Cutting a header -/

theorem splitFrom_scan {q a q' a' : Bool} {t : Text} (h : scan q a t = some (q', a'))
    (cur rest : Text) : splitFrom q a cur (t ++ rest) = splitFrom q' a' (cur ++ t) rest := by
  induction t generalizing q a cur with
  | nil =>
    obtain ⟨rfl, rfl⟩ : q = q' ∧ a = a' := by simpa [scan] using h
    simp
  | cons c t ih =>
    rw [List.append_cons cur, List.cons_append]
    simp only [scan] at h
    rw [splitFrom]
    split_ifs at h ⊢ <;> exact ih h _

theorem splitFrom_cut {q a : Bool} {t : Text} (h : scan q a t = none) :
    ∃ l s r, t = l ++ s :: r ∧ s ∈ [',', ';'] ∧ ∀ cur rest,
      splitFrom q a cur (t ++ rest) = (cur ++ l) :: splitFrom false false [] (r ++ rest) := by
  induction t generalizing q a with
  | nil => cases h
  | cons c t ih =>
    have hlater : ∀ q' a', scan q' a' t = none → (∀ cur rest, splitFrom q a cur (c :: rest) =
        splitFrom q' a' (cur ++ [c]) rest) → ∃ l s r, c :: t = l ++ s :: r ∧ s ∈ [',', ';'] ∧
        ∀ cur rest, splitFrom q a cur (c :: t ++ rest) =
          (cur ++ l) :: splitFrom false false [] (r ++ rest) := by
      intro q' a' hscan hstep
      obtain ⟨l, s, r, rfl, hs, hcut⟩ := ih hscan
      exact ⟨c :: l, s, r, rfl, hs, fun cur rest => by
        rw [List.cons_append, hstep, hcut, List.append_assoc, List.singleton_append]⟩
    simp only [scan] at h
    split_ifs at h with hquote hopen hclose hstop
    · exact hlater _ _ h fun cur rest => by rw [splitFrom, if_pos hquote]
    · exact hlater _ _ h fun cur rest => by rw [splitFrom, if_neg hquote, if_pos hopen]
    · exact hlater _ _ h fun cur rest => by
        rw [splitFrom, if_neg hquote, if_neg hopen, if_pos hclose]
    · obtain ⟨hc, rfl, rfl⟩ := hstop
      refine ⟨[], c, t, rfl, by simpa using hc, fun cur rest => ?_⟩
      rw [List.cons_append, splitFrom, if_neg hquote, if_neg hopen, if_neg hclose,
        if_pos ⟨hc, rfl, rfl⟩, List.append_nil]
    · exact hlater _ _ h fun cur rest => by
        rw [splitFrom, if_neg hquote, if_neg hopen, if_neg hclose, if_neg hstop]

theorem prefix_splitFrom (q a : Bool) (cur t : Text) :
    ∃ e es, splitFrom q a cur t = e :: es ∧ cur <+: e := by
  induction t generalizing q a cur with
  | nil => exact ⟨cur, [], rfl, List.prefix_rfl⟩
  | cons c t ih =>
    have hgrow : ∀ q' a', ∃ e es, splitFrom q' a' (cur ++ [c]) t = e :: es ∧ cur <+: e := by
      intro q' a'
      obtain ⟨e, es, hsplit, hprefix⟩ := ih q' a' (cur ++ [c])
      exact ⟨e, es, hsplit, (List.prefix_append _ _).trans hprefix⟩
    rw [splitFrom]
    split_ifs
    · exact hgrow _ _
    · exact hgrow _ _
    · exact hgrow _ _
    · exact ⟨cur, _, rfl, List.prefix_rfl⟩
    · exact hgrow _ _

section Trim

variable {x : Mailbox} {cur : Text} (hcur : ∀ c ∈ cur, blank c = true)

include hcur

theorem trim_spaced : trim (cur ++ x.text) = x.text := by
  obtain ⟨c, r, hhead, hc, -⟩ := Mailbox.head_text x
  obtain ⟨l, d, hlast, hd⟩ := Mailbox.last_text x
  have hfront : (cur ++ x.text).dropWhile blank = x.text := by
    rw [List.dropWhile_append_of_pos hcur, hhead, List.dropWhile_cons_of_neg (by simp [hc])]
  rw [trim, hfront, hlast, List.rdropWhile_concat_neg _ _ _ (by simp [hd])]

/-- An entry that ends within a mailbox. -/
theorem trim_cut {l r : Text} {s : Char} (h : x.text = l ++ s :: r) (hs : s ∈ [',', ';']) :
    trim (cur ++ l) ≠ [] ∧ trim (cur ++ l) ≠ x.text := by
  obtain ⟨c, t, hhead, hc, hstop⟩ := Mailbox.head_text x
  cases l with
  | nil =>
    obtain ⟨rfl, -⟩ := List.cons.inj (hhead.symm.trans h)
    exact absurd hs hstop
  | cons d l =>
    obtain ⟨rfl, -⟩ := List.cons.inj (hhead.symm.trans h)
    have hfront : (cur ++ c :: l).dropWhile blank = c :: l := by
      rw [List.dropWhile_append_of_pos hcur, List.dropWhile_cons_of_neg (by simp [hc])]
    rw [trim, hfront]
    refine ⟨fun hnil => ?_, fun hwhole => ?_⟩
    · simpa [hc] using (List.rdropWhile_eq_nil_iff.1 hnil) c List.mem_cons_self
    · have hlen := (List.rdropWhile_prefix blank (l := c :: l)).length_le
      rw [hwhole, h, List.length_append, List.length_cons (a := s)] at hlen
      omega

/-- An entry that goes on behind a mailbox. -/
theorem trim_swallowed {e : Text} (h : cur ++ x.text ++ [','] <+: e) :
    trim e ≠ [] ∧ trim e ≠ x.text := by
  obtain ⟨u, rfl⟩ := h
  obtain ⟨c, t, hhead, hc, -⟩ := Mailbox.head_text x
  have hfront : (cur ++ x.text ++ [','] ++ u).dropWhile blank = x.text ++ ',' :: u := by
    rw [List.append_assoc, List.append_assoc, List.dropWhile_append_of_pos hcur, hhead,
      List.cons_append, List.dropWhile_cons_of_neg (by simp [hc])]
    rfl
  have hlen : x.text.length + 1 ≤ (trim (cur ++ x.text ++ [','] ++ u)).length := by
    rw [trim, hfront, List.rdropWhile, List.length_reverse, List.reverse_append,
      List.reverse_cons, List.append_assoc, List.dropWhile_append]
    have hcomma : (([','] : Text) ++ x.text.reverse).dropWhile blank = ',' :: x.text.reverse := rfl
    split
    · rw [hcomma]
      simp
    · simp only [List.length_append, List.length_cons, List.length_nil, List.length_reverse]
      omega
  constructor
  · intro hnil
    rw [hnil] at hlen
    simp at hlen
  · intro hwhole
    rw [hwhole] at hlen
    omega

end Trim

theorem entries_ne {e t : Text} {es more : List Text} (h : trim e ≠ [] ∧ trim e ≠ t) :
    ((e :: es).map trim).filter (· ≠ []) ≠ t :: more := by
  rw [List.map_cons, List.filter_cons_of_pos (by simpa using h.1)]
  exact fun he => h.2 (List.cons.inj he).1

theorem entries_cut {x : Mailbox} {cur rest : Text} {more : List Text}
    (hcur : ∀ c ∈ cur, blank c = true) (hscan : scan false false x.text = none) :
    ((splitFrom false false cur (x.text ++ rest)).map trim).filter (· ≠ []) ≠ x.text :: more := by
  obtain ⟨l, s, r, htext, hs, hsplit⟩ := splitFrom_cut hscan
  rw [hsplit]
  exact entries_ne (trim_cut hcur htext hs)

/-- The entries are the mailboxes exactly when the header splits, from the first one on. -/
theorem entries_iff {x : Mailbox} {boxes : List Mailbox} {cur : Text}
    (hcur : ∀ c ∈ cur, blank c = true) :
    ((splitFrom false false cur ([',', ' '].intercalate ((x :: boxes).map Mailbox.text))).map
      trim).filter (· ≠ []) = (x :: boxes).map Mailbox.text ↔ Splits (x :: boxes) := by
  induction boxes generalizing x cur with
  | nil =>
    have hjoin : [',', ' '].intercalate ([x].map Mailbox.text) = x.text ++ [] := by
      simp [List.intercalate]
    rw [hjoin, Splits]
    cases hscan : scan false false x.text with
    | none => exact iff_of_false (entries_cut hcur hscan) (by simp)
    | some st =>
      obtain ⟨q, a⟩ := st
      obtain ⟨c, t, hhead, -⟩ := Mailbox.head_text x
      rw [splitFrom_scan hscan]
      have hne : x.text ≠ [] := by simp [hhead]
      simp [splitFrom, trim_spaced hcur, hne]
  | cons y boxes ih =>
    set more := [',', ' '].intercalate ((y :: boxes).map Mailbox.text) with hmore
    have hjoin : [',', ' '].intercalate ((x :: y :: boxes).map Mailbox.text) =
        x.text ++ ',' :: ' ' :: more := by
      simp [hmore, List.intercalate]
    rw [hjoin, Splits]
    cases hscan : scan false false x.text with
    | none => exact iff_of_false (entries_cut hcur hscan) (by simp)
    | some st =>
      obtain ⟨q, a⟩ := st
      rw [splitFrom_scan hscan]
      by_cases hclosed : q = false ∧ a = false
      · obtain ⟨rfl, rfl⟩ := hclosed
        have hnext := @ih y [' '] (List.forall_mem_singleton.2 rfl)
        obtain ⟨c, t, hhead, -⟩ := Mailbox.head_text x
        have hsplit : splitFrom false false (cur ++ x.text) (',' :: ' ' :: more) =
            (cur ++ x.text) :: splitFrom false false [' '] more := by
          simp [splitFrom]
        rw [hsplit, List.map_cons, trim_spaced hcur, List.filter_cons_of_pos (by simp [hhead]),
          List.map_cons, List.cons.injEq, hnext]
        simp
      · have hgo : splitFrom q a (cur ++ x.text) (',' :: ' ' :: more) =
            splitFrom q a (cur ++ x.text ++ [',']) (' ' :: more) := by
          simp [splitFrom, hclosed]
        obtain ⟨e, es, hsplit, hprefix⟩ :=
          prefix_splitFrom q a (cur ++ x.text ++ [',']) (' ' :: more)
        rw [hgo, hsplit]
        refine iff_of_false (entries_ne (trim_swallowed hcur hprefix)) ?_
        rintro ⟨hst, -⟩
        exact hclosed (by simpa using hst)

/-- **A header is cut into its mailboxes exactly when it splits.** -/
theorem splitAddressHeader_iff {boxes : List Mailbox} :
    splitAddressHeader (headerText boxes) = boxes.map Mailbox.text ↔ Splits boxes := by
  cases boxes with
  | nil => exact ⟨fun _ => trivial, fun _ => rfl⟩
  | cons x boxes =>
    have hne : [',', ' '].intercalate ((x :: boxes).map Mailbox.text) ≠ [] := by
      obtain ⟨c, t, htext, -⟩ := Mailbox.head_text x
      cases boxes <;> simp [List.intercalate, htext]
    have hsplit : splitAddressHeader (headerText (x :: boxes)) =
        ((splitFrom false false [] ([',', ' '].intercalate ((x :: boxes).map Mailbox.text))).map
          trim).filter (· ≠ []) := by
      rw [headerText]
      · unfold splitAddressHeader
        split
        · rename_i he; cases he
        · rename_i he; exact absurd (Option.some.inj he) hne
        · rename_i he; rw [Option.some.inj he]
      · simp
    rw [hsplit]
    exact entries_iff (by simp)

/-! ### Recipients -/

section Recipients

variable {lower : Text → Text} {exclude seen addrs : List Text}

theorem dedupeFrom_sublist : (dedupeFrom lower exclude seen addrs).Sublist addrs := by
  induction addrs generalizing seen with
  | nil => exact List.Sublist.refl _
  | cons a addrs ih =>
    rw [dedupeFrom]
    split
    · exact ih.cons _
    · exact ih.cons_cons _

theorem mem_dedupeFrom (h : [] ∉ addrs) (k : Text) :
    k ∈ (dedupeFrom lower exclude seen addrs).map lower ↔
      k ∈ addrs.map lower ∧ k ∉ exclude ∧ k ∉ seen := by
  induction addrs generalizing seen with
  | nil => simp [dedupeFrom]
  | cons a addrs ih =>
    rw [List.mem_cons, not_or] at h
    rw [dedupeFrom]
    split
    · rename_i hskip
      rw [ih h.2, List.map_cons, List.mem_cons]
      have hout := hskip.resolve_left (Ne.symm h.1)
      grind
    · rename_i hkeep
      rw [List.map_cons, List.mem_cons, ih h.2, List.map_cons, List.mem_cons, List.mem_cons]
      grind

theorem dedupeFrom_nodup (h : [] ∉ addrs) :
    ((dedupeFrom lower exclude seen addrs).map lower).Nodup := by
  induction addrs generalizing seen with
  | nil => exact List.nodup_nil
  | cons a addrs ih =>
    rw [List.mem_cons, not_or] at h
    rw [dedupeFrom]
    split
    · exact ih h.2
    · rw [List.map_cons, List.nodup_cons, mem_dedupeFrom h.2]
      exact ⟨fun hmem => hmem.2.2 List.mem_cons_self, ih h.2⟩

theorem named_dedupe (lower : Text → Text) (exclude : List Text) (h : [] ∉ addrs) :
    Named lower exclude addrs (dedupeExcluding lower addrs exclude) where
  inOrder := dedupeFrom_sublist
  once := dedupeFrom_nodup h
  exactly k := by
    rw [dedupeExcluding, mem_dedupeFrom h]
    simp

theorem readAs_not_mem_nil (boxes : List Mailbox) : [] ∉ boxes.map readAs := by
  intro h
  obtain ⟨x, -, hx⟩ := List.mem_map.1 h
  exact readAs_ne_nil x hx

theorem map_readAs {boxes : List Mailbox} (h : ∀ x ∈ boxes, Reads x) :
    boxes.map readAs = addrTexts boxes :=
  List.map_congr_left fun x hx => readAs_of_reads (h x hx)

variable {m : Headers} {rest : MessageDetail} {own : List AddrSpec} {mode : Mode}
  {date : Option Text → Text}

/-- To is what is read of the answered mailboxes. -/
theorem replyRecipients_eq (hsender : m.replyTo = [] → m.sender.length ≤ 1)
    (hsplits : Splits m.replyTo) : replyRecipients lower (m.detail rest) =
      dedupeExcluding lower ((answered m).map readAs) [] := by
  have hreply : ((splitAddressHeader (headerText m.replyTo)).map fun a =>
      extractEmail (some a)).filter (· ≠ []) = m.replyTo.map readAs := by
    rw [splitAddressHeader_iff.2 hsplits, List.map_map]
    exact List.filter_eq_self.2 fun t ht => by
      simpa using fun he : t = [] => readAs_not_mem_nil m.replyTo (he ▸ ht)
  simp only [replyRecipients, Headers.detail, hreply, answered]
  by_cases hnone : m.replyTo = []
  · simp only [hnone, List.map_nil, ne_eq, not_true_eq_false, if_false, if_true]
    rcases Nat.le_one_iff_eq_zero_or_eq_one.1 (hsender hnone) with hlen | hlen
    · simp [List.length_eq_zero_iff.1 hlen, headerText, extractEmail]
    · obtain ⟨x, hs⟩ := List.length_eq_one_iff.1 hlen
      have hx : extractEmail (headerText [x]) = readAs x := by
        simp [headerText, List.intercalate, readAs]
      simp [hs, hx, readAs_ne_nil x]
  · have hne : m.replyTo.map readAs ≠ [] := by simpa using hnone
    simp only [hnone, hne, ne_eq, not_false_eq_true, if_true, if_false]

/-- Cc is what is read of To and Cc, less what is read of the own addresses and To. -/
theorem cc_replyAll : (buildReply lower date (m.detail rest) (own.map AddrSpec.text) .replyAll).cc =
    dedupeExcluding lower ((m.toBoxes ++ m.ccBoxes).map readAs)
      (own.map (fun a => lower (readAs (.bare a))) ++
        (replyRecipients lower (m.detail rest)).map lower) := by
  have hothers : (m.toBoxes.map Mailbox.text ++ m.ccBoxes.map Mailbox.text).map
      (fun t => extractEmail (some t)) = (m.toBoxes ++ m.ccBoxes).map readAs := by
    rw [← List.map_append, List.map_map]
    rfl
  have hown : (own.map AddrSpec.text).map (fun t => lower (extractEmail (some t))) =
      own.map fun a => lower (readAs (.bare a)) := by
    rw [List.map_map]
    rfl
  simp only [buildReply, Headers.detail, Option.getD_some, hothers, hown, if_true]

theorem readAs_own (h : ∀ a ∈ own, bracketed a.text = false) :
    own.map (fun a => lower (readAs (.bare a))) = own.map fun a => lower a.text :=
  List.map_congr_left fun a ha => congrArg lower (readAs_of_reads (x := .bare a) (h a ha))

/-- A message read right is answered to the right addresses. -/
theorem addressed_readable (h : Readable m own mode) : Addressed lower m own mode
    (buildReply lower date (m.detail rest) (own.map AddrSpec.text) mode) := by
  have hto : Named lower [] (addrTexts (answered m)) (replyRecipients lower (m.detail rest)) := by
    rw [replyRecipients_eq h.oneSender h.splits, ← map_readAs h.answered]
    exact named_dedupe _ _ (readAs_not_mem_nil _)
  have hcc : mode = .replyAll → Named lower (own.map (fun a => lower a.text) ++
      (replyRecipients lower (m.detail rest)).map lower) (addrTexts (m.toBoxes ++ m.ccBoxes))
      (buildReply lower date (m.detail rest) (own.map AddrSpec.text) mode).cc := by
    rintro rfl
    rw [cc_replyAll, readAs_own (h.own rfl), ← map_readAs (h.others rfl)]
    exact named_dedupe _ _ (readAs_not_mem_nil _)
  refine ⟨hto, hcc, fun hmode => by simp [buildReply, hmode], fun r hr => ?_⟩
  have hmem : r ∈ addrTexts m.mailboxes := by
    rcases List.mem_append.1 hr with hr | hr
    · have hin := hto.inOrder.subset hr
      rw [answered] at hin
      split at hin
      all_goals
        obtain ⟨x, hx, hr⟩ := List.mem_map.1 hin
        exact List.mem_map.2 ⟨x, by simp [Headers.mailboxes, hx], hr⟩
    · cases mode with
      | reply => simp [buildReply] at hr
      | replyAll =>
        obtain ⟨x, hx, hr⟩ := List.mem_map.1 ((hcc rfl).inOrder.subset hr)
        rcases List.mem_append.1 hx with hx | hx <;>
          exact List.mem_map.2 ⟨x, by simp [Headers.mailboxes, hx], hr⟩
  obtain ⟨x, hx, hxr⟩ := List.mem_map.1 hmem
  exact ⟨x, hx, hxr.symm⟩

/-! ### Where a misreading shows -/

/-- Mailboxes are read as they are meant when the recipients are, unless an address stands in
another place. -/
theorem reads_of_named {boxes : List Mailbox} {excluded keys : List Text}
    (hnamed : Named lower excluded (addrTexts boxes)
      (dedupeExcluding lower (boxes.map readAs) exclude))
    (hexclude : ∀ k ∈ exclude, k ∈ keys) (haddrs : ∀ x ∈ boxes, lower x.addr.text ∈ keys)
    (hecho : ∀ x ∈ boxes, NoEcho lower keys x) : ∀ x ∈ boxes, Reads x := by
  intro x hx
  have hkey : lower (readAs x) ∈ keys := by
    by_cases hin : lower (readAs x) ∈ exclude
    · exact hexclude _ hin
    · have hout : lower (readAs x) ∈
          (dedupeExcluding lower (boxes.map readAs) exclude).map lower := by
        rw [dedupeExcluding, mem_dedupeFrom (readAs_not_mem_nil boxes)]
        exact ⟨List.mem_map_of_mem (List.mem_map_of_mem hx), hin, List.not_mem_nil⟩
      obtain ⟨t, ht, hkey⟩ := List.mem_map.1 ((hnamed.exactly _).1 hout).1
      obtain ⟨y, hy, rfl⟩ := List.mem_map.1 ht
      rw [← hkey]
      exact haddrs y hy
  have hread : readAs x = x.addr.text := (hecho x hx _ hkey).2 (readAs_within x)
  exact reads_of_readAs hread (hread ▸ (hecho x hx _ hkey).1)

theorem one_sender {out : List Text} (hlen : out.length ≤ 1)
    (hnodup : (m.sender.map fun x => lower x.addr.text).Nodup)
    (h : Named lower [] (addrTexts m.sender) out) : m.sender.length ≤ 1 := by
  have hsub : m.sender.map (fun x => lower x.addr.text) ⊆ out.map lower := by
    intro k hk
    obtain ⟨x, hx, rfl⟩ := List.mem_map.1 hk
    exact (h.exactly _).2 ⟨List.mem_map_of_mem (List.mem_map_of_mem hx), List.not_mem_nil⟩
  have hle := (List.subperm_of_subset hnodup hsub).length_le
  simp only [List.length_map] at hle
  omega

theorem length_replyRecipients {source : MessageDetail} (h : source.replyTo = none) :
    (replyRecipients lower source).length ≤ 1 := by
  refine dedupeFrom_sublist.length_le.trans ?_
  simp only [h, splitAddressHeader, List.map_nil, List.filter_nil, ne_eq, not_true_eq_false,
    if_false]
  split <;> simp

/-- A reply to a telling message that is addressed right was read right. -/
theorem readable_of_addressed (ht : Telling lower m own mode)
    (h : Addressed lower m own mode
      (buildReply lower date (m.detail rest) (own.map AddrSpec.text) mode)) :
    Readable m own mode := by
  set keys := (addrTexts m.mailboxes ++ own.map AddrSpec.text).map lower with hkeys
  have hmem : ∀ x ∈ m.mailboxes, lower x.addr.text ∈ keys := fun x hx =>
    List.mem_map_of_mem (List.mem_append_left _ (List.mem_map_of_mem hx))
  have hanswered : ∀ x ∈ answered m, x ∈ m.mailboxes := by
    intro x hx
    rw [answered] at hx
    split at hx <;> simp [Headers.mailboxes, hx]
  have hothers : ∀ x ∈ m.toBoxes ++ m.ccBoxes, x ∈ m.mailboxes := by
    intro x hx
    rcases List.mem_append.1 hx with hx | hx <;> simp [Headers.mailboxes, hx]
  have hto : Named lower [] (addrTexts (answered m)) (replyRecipients lower (m.detail rest)) :=
    h.toNamed
  have hsender : m.replyTo = [] → m.sender.length ≤ 1 := by
    intro hnone
    rw [answered, if_pos hnone] at hto
    exact one_sender (length_replyRecipients (by simp [Headers.detail, hnone, headerText]))
      (ht.senders hnone) hto
  refine ⟨hsender, ht.splits, ?_, fun hmode => ?_, ht.own⟩
  · rw [replyRecipients_eq hsender ht.splits] at hto
    exact reads_of_named hto (by simp) (fun x hx => hmem x (hanswered x hx))
      fun x hx => ht.noEcho x (hanswered x hx)
  · subst hmode
    have hcc := h.ccNamed rfl
    rw [cc_replyAll] at hcc
    refine reads_of_named hcc (fun k hk => ?_) (fun x hx => hmem x (hothers x hx))
      fun x hx => ht.noEcho x (hothers x hx)
    rw [readAs_own (ht.own rfl)] at hk
    rcases List.mem_append.1 hk with hk | hk
    · obtain ⟨a, ha, rfl⟩ := List.mem_map.1 hk
      exact List.mem_map_of_mem (List.mem_append_right _ (List.mem_map_of_mem ha))
    · obtain ⟨x, hx, hxk⟩ := List.mem_map.1 ((hto.exactly k).1 hk).1
      obtain ⟨y, hy, rfl⟩ := List.mem_map.1 hx
      rw [← hxk]
      exact hmem y (hanswered y hy)

end Recipients

/-- **A reply goes to the people its headers name in a readable message, and in no other message
where a misreading shows.** -/
theorem addressed_of_readable (lower : Text → Text) (date : Option Text → Text)
    (rest : MessageDetail) (m : Headers) (own : List AddrSpec) (mode : Mode) :
    (Readable m own mode → Addressed lower m own mode
      (buildReply lower date (m.detail rest) (own.map AddrSpec.text) mode)) ∧
    (Telling lower m own mode → Addressed lower m own mode
      (buildReply lower date (m.detail rest) (own.map AddrSpec.text) mode) →
        Readable m own mode) :=
  ⟨addressed_readable, readable_of_addressed⟩

def lowerLetters (t : Text) : Text :=
  t.map fun c => if 'A' ≤ c ∧ c ≤ 'Z' then Char.ofNat (c.toNat + 32) else c

def bareMessage : MessageDetail := ⟨none, none, none, none, none, none, none, none, none⟩

def letter (c : Char) (h : wordChar c = true) : Atom := ⟨[c], by simp, by simpa using h⟩

def letterAddr (c : Char) (h : wordChar c = true) : AddrSpec := ⟨.atom (letter c h), letter 'y' rfl⟩

def listMessage : Headers :=
  { sender := [.named [.quoted "A, B".toList] (letterAddr 'x' rfl)]
    replyTo := []
    toBoxes := [.bare (letterAddr 'z' rfl), .bare (letterAddr 'o' rfl)]
    ccBoxes := [.bare (letterAddr 'z' rfl)] }

theorem noEcho_of_infixes {lower : Text → Text} {keys : List Text} {x : Mailbox}
    (hphrase : ∀ s ∈ (phraseText x.phrase).tails, ∀ t ∈ s.inits, lower t ∉ keys)
    (htext : ∀ s ∈ x.text.tails, ∀ t ∈ s.inits, lower t ∈ keys → t = x.addr.text) :
    NoEcho lower keys x := by
  refine fun t ht => ⟨fun hwithin => ?_, fun hwithin => ?_⟩
  · obtain ⟨s, hprefix, hsuffix⟩ := List.infix_iff_prefix_suffix.1 hwithin
    exact hphrase s ((List.mem_tails _ _).2 hsuffix) t ((List.mem_inits _ _).2 hprefix) ht
  · obtain ⟨s, hprefix, hsuffix⟩ := List.infix_iff_prefix_suffix.1 hwithin
    exact htext s ((List.mem_tails _ _).2 hsuffix) t ((List.mem_inits _ _).2 hprefix) ht

theorem readable_listMessage : Readable listMessage [letterAddr 'o' rfl] .replyAll where
  oneSender := by decide
  splits := trivial
  answered x hx := by
    obtain rfl := List.mem_singleton.1 hx
    exact ⟨by decide, by decide⟩
  others _ := by simpa [listMessage, Reads] using And.intro (by decide) (by decide)
  own _ := by decide

theorem telling_listMessage :
    Telling lowerLetters listMessage [letterAddr 'o' rfl] .replyAll where
  senders := by decide
  splits := trivial
  noEcho x hx := by
    have hcases : x = .named [.quoted "A, B".toList] (letterAddr 'x' rfl) ∨
        x = .bare (letterAddr 'z' rfl) ∨ x = .bare (letterAddr 'o' rfl) := by
      simp only [Headers.mailboxes, listMessage, List.mem_append, List.mem_cons] at hx
      grind
    rcases hcases with rfl | rfl | rfl <;> exact noEcho_of_infixes (by decide) (by decide)
  own _ := by decide

/-- A reply to all goes to `x@y`, with a copy to `z@y` and none to the own address. -/
theorem addressed_of_readable_listed :
    (buildReply lowerLetters (fun _ => []) (listMessage.detail bareMessage)
      ([letterAddr 'o' rfl].map AddrSpec.text) .replyAll).cc = ["z@y".toList] ∧
    Addressed lowerLetters listMessage [letterAddr 'o' rfl] .replyAll
      (buildReply lowerLetters (fun _ => []) (listMessage.detail bareMessage)
        ([letterAddr 'o' rfl].map AddrSpec.text) .replyAll) ∧
    Readable listMessage [letterAddr 'o' rfl] .replyAll :=
  have h := addressed_of_readable lowerLetters (fun _ => []) bareMessage listMessage
    [letterAddr 'o' rfl] .replyAll
  ⟨by decide, h.1 readable_listMessage, h.2 telling_listMessage (h.1 readable_listMessage)⟩

-- three quote marks in a display name do no harm in a From
example : Reads (.named [.quoted "5\x22 disk".toList] (letterAddr 'x' rfl)) :=
  ⟨by decide, by decide⟩

/-- Answering `"<b@c>" <x@y>` writes to `b@c`. -/
theorem bracketed_name_answered : ¬ ∀ (m : Headers) (own : List AddrSpec) (mode : Mode),
    Addressed lowerLetters m own mode
      (buildReply lowerLetters (fun _ => []) (m.detail bareMessage) (own.map AddrSpec.text)
        mode) := by
  intro h
  have hto := (h ⟨[.named [.quoted "<b@c>".toList] (letterAddr 'x' rfl)], [], [], []⟩ []
    .reply).toNamed.inOrder
  have hmem : "b@c".toList ∈ ["x@y".toList] := hto.subset (by decide)
  exact absurd hmem (by decide)

end MailVerdict.Analysis.ReplyRecipients
