import MailVerdict.Computation.TextPatterns
import MailVerdict.Model.Glacier

/-!
# What a message key identifies

A key is the Message-ID header itself, or a hash of the envelope's fields joined by a separator.
The two forms share one space of texts, and the sender chooses the texts that are joined. So two
messages of one account have one key without being the same mail in two ways only: the header of
one is the hashed key of the other (`Imitates`), or the sender of one runs on over a separator into
the subject of the other (`Shifted`). `key_identifies_iff` says that there is no third.
-/

namespace MailVerdict.Analysis.MessageKeys

open Computation.TextPatterns
open Model.Glacier (Platform Uuid Time computeMsgKey)

/-- What `compute_msg_key` reads of a message besides its account. -/
structure Envelope where
  messageIdHdr : Option String
  fromAddr : Option String
  subject : Option String
  receivedAt : Option Time
  sizeBytes : Option ℕ

namespace Envelope

variable (P : Platform) (accountId : Uuid)

def key (e : Envelope) : String :=
  computeMsgKey P accountId e.messageIdHdr e.fromAddr e.subject e.receivedAt e.sizeBytes

def header (e : Envelope) : String := e.messageIdHdr.getD ""

def sender (e : Envelope) : String := e.fromAddr.getD ""

def title (e : Envelope) : String := e.subject.getD ""

def date (e : Envelope) : String := (e.receivedAt.map P.isoformat).getD ""

def size (e : Envelope) : String := (e.sizeBytes.map toString).getD ""

def joined (e : Envelope) : String :=
  "\x1f".intercalate [toString accountId, e.sender, e.title, e.date P, e.size]

end Envelope

/-- The same mail: the same header, or none and the same envelope. -/
def SameIdentity (a b : Envelope) : Prop :=
  (a.header ≠ "" ∧ a.header = b.header) ∨
    (a.header = "" ∧ b.header = "" ∧ a.sender = b.sender ∧ a.title = b.title ∧
      a.receivedAt = b.receivedAt ∧ a.sizeBytes = b.sizeBytes)

section Kinds

variable (P : Platform) (accountId : Uuid)

/-- The header of `a` is the hashed key of `b`, which has no header. -/
def Imitates (a b : Envelope) : Prop :=
  b.header = "" ∧ a.header = "sha256:" ++ P.hexdigest (b.joined P accountId)

/-- Neither has a header, date and size agree, and the sender of `b` is that of `a` with a
separator and a text after it by which the subject of `a` starts before that of `b`. -/
def Shifted (a b : Envelope) : Prop :=
  a.header = "" ∧ b.header = "" ∧ a.receivedAt = b.receivedAt ∧ a.sizeBytes = b.sizeBytes ∧
    ∃ text : String, b.sender = a.sender ++ "\x1f" ++ text ∧ a.title = text ++ "\x1f" ++ b.title

end Kinds

/-- What the code relies on: SHA-256 has no collisions, and an ISO date names its date and has no
separator in it. -/
structure Documented (P : Platform) : Prop where
  hexdigest_injective : Function.Injective P.hexdigest
  isoformat_injective : Function.Injective P.isoformat
  isoformat_nonempty : ∀ t, P.isoformat t ≠ ""
  isoformat_clean : ∀ t, '\x1f' ∉ (P.isoformat t).toList

/-! ## Numbers and dates -/

theorem toString_injective {m n : ℕ} (h : toString m = toString n) : m = n := by
  have hdigits : Nat.toDigits 10 m = Nat.toDigits 10 n := by
    have hlist := congrArg String.toList h
    simpa [Nat.repr] using hlist
  have hread := congrArg (fun l => Nat.ofDigitChars 10 l 0) hdigits
  simpa [Nat.ofDigitChars_toDigits] using hread

theorem toString_clean (n : ℕ) : '\x1f' ∉ (toString n).toList := by
  intro h
  have hdigit : ('\x1f').isDigit = true := by
    apply Nat.isDigit_of_mem_toDigits (b := 10) (n := n) (by decide) (by decide)
    simpa [Nat.repr] using h
  revert hdigit
  decide

section Hashed

variable {P : Platform} {accountId : Uuid} {a b : Envelope}

theorem date_clean (hdoc : Documented P) (e : Envelope) : '\x1f' ∉ (e.date P).toList := by
  unfold Envelope.date
  cases e.receivedAt with
  | none => simp
  | some t => exact hdoc.isoformat_clean t

theorem date_inj (hdoc : Documented P) (h : a.date P = b.date P) : a.receivedAt = b.receivedAt := by
  unfold Envelope.date at h
  cases ha : a.receivedAt with
  | none =>
    cases hb : b.receivedAt with
    | none => rfl
    | some t =>
      rw [ha, hb] at h
      exact absurd h.symm (hdoc.isoformat_nonempty t)
  | some t =>
    cases hb : b.receivedAt with
    | none =>
      rw [ha, hb] at h
      exact absurd h (hdoc.isoformat_nonempty t)
    | some t' =>
      rw [ha, hb] at h
      exact congrArg some (hdoc.isoformat_injective h)

theorem size_clean (e : Envelope) : '\x1f' ∉ e.size.toList := by
  unfold Envelope.size
  cases e.sizeBytes with
  | none => decide
  | some n => exact toString_clean n

theorem size_inj (h : a.size = b.size) : a.sizeBytes = b.sizeBytes := by
  have hnonempty : ∀ n : ℕ, toString n ≠ "" := fun n => Nat.repr_ne_empty
  unfold Envelope.size at h
  cases ha : a.sizeBytes with
  | none =>
    cases hb : b.sizeBytes with
    | none => rfl
    | some n =>
      rw [ha, hb] at h
      exact absurd h.symm (hnonempty n)
  | some n =>
    cases hb : b.sizeBytes with
    | none =>
      rw [ha, hb] at h
      exact absurd h (hnonempty n)
    | some n' =>
      rw [ha, hb] at h
      exact congrArg some (toString_injective h)

theorem joined_toList (e : Envelope) :
    (e.joined P accountId).toList = (((toString accountId).toList ++ '\x1f' ::
      (e.sender.toList ++ '\x1f' :: e.title.toList)) ++ '\x1f' :: (e.date P).toList) ++
        '\x1f' :: e.size.toList := by
  unfold Envelope.joined
  simp [String.intercalate_cons_cons, String.intercalate_singleton]

/-- Envelopes without a header are joined alike where they agree, or a separator in a sender shifts
the subject. -/
theorem joined_eq_iff (hdoc : Documented P) (ha : a.header = "") (hb : b.header = "") :
    a.joined P accountId = b.joined P accountId ↔
      (a.sender = b.sender ∧ a.title = b.title ∧ a.receivedAt = b.receivedAt ∧
        a.sizeBytes = b.sizeBytes) ∨ Shifted a b ∨ Shifted b a := by
  have htext : ∀ s t u : String, s.toList = t.toList ++ '\x1f' :: u.toList ↔
      s = t ++ "\x1f" ++ u := by
    intro s t u
    rw [← String.toList_inj]
    simp
  rw [← String.toList_inj, joined_toList, joined_toList]
  constructor
  · intro h
    obtain ⟨h, hsize⟩ := join_last_inj (size_clean a) (size_clean b) h
    obtain ⟨h, hdate⟩ := join_last_inj (date_clean hdoc a) (date_clean hdoc b) h
    have hreceived := date_inj hdoc (String.toList_inj.1 hdate)
    have hbytes := size_inj (String.toList_inj.1 hsize)
    have hpair := (List.cons.inj (List.append_cancel_left h)).2
    rcases join_eq_iff.1 hpair with ⟨hs, ht⟩ | ⟨m, hs, ht⟩ | ⟨m, hs, ht⟩
    · exact Or.inl ⟨String.toList_inj.1 hs, String.toList_inj.1 ht, hreceived, hbytes⟩
    · refine Or.inr (Or.inl ⟨ha, hb, hreceived, hbytes, String.ofList m, ?_, ?_⟩)
      · rw [← htext, String.toList_ofList]
        exact hs
      · rw [← htext, String.toList_ofList]
        exact ht
    · refine Or.inr (Or.inr ⟨hb, ha, hreceived.symm, hbytes.symm, String.ofList m, ?_, ?_⟩)
      · rw [← htext, String.toList_ofList]
        exact hs
      · rw [← htext, String.toList_ofList]
        exact ht
  · have hpair : a.sender.toList ++ '\x1f' :: a.title.toList =
          b.sender.toList ++ '\x1f' :: b.title.toList → a.receivedAt = b.receivedAt →
        a.sizeBytes = b.sizeBytes →
          (((toString accountId).toList ++ '\x1f' :: (a.sender.toList ++ '\x1f' ::
            a.title.toList)) ++ '\x1f' :: (a.date P).toList) ++ '\x1f' :: a.size.toList =
          (((toString accountId).toList ++ '\x1f' :: (b.sender.toList ++ '\x1f' ::
            b.title.toList)) ++ '\x1f' :: (b.date P).toList) ++ '\x1f' :: b.size.toList := by
      intro hpair hreceived hbytes
      unfold Envelope.date Envelope.size
      rw [hpair, hreceived, hbytes]
    rintro (⟨hs, ht, hreceived, hbytes⟩ | ⟨-, -, hreceived, hbytes, text, hs, ht⟩ |
      ⟨-, -, hreceived, hbytes, text, hs, ht⟩)
    · exact hpair (by rw [hs, ht]) hreceived hbytes
    · refine hpair (join_eq_iff.2 (Or.inr (Or.inl ⟨text.toList, ?_, ?_⟩))) hreceived hbytes
      · exact (htext _ _ _).2 hs
      · exact (htext _ _ _).2 ht
    · refine hpair (join_eq_iff.2 (Or.inr (Or.inr ⟨text.toList, ?_, ?_⟩))) hreceived.symm
        hbytes.symm
      · exact (htext _ _ _).2 hs
      · exact (htext _ _ _).2 ht

theorem key_of_header (h : a.header ≠ "") : a.key P accountId = a.header := if_pos h

theorem key_of_no_header (h : a.header = "") :
    a.key P accountId = "sha256:" ++ P.hexdigest (a.joined P accountId) :=
  if_neg fun hne => hne h

theorem hashed_ne_empty (text : String) : "sha256:" ++ P.hexdigest text ≠ "" := by
  intro h
  have hlist := congrArg String.toList h
  simp at hlist

theorem not_shifted_of_sender (h : a.sender = b.sender) : ¬ Shifted a b := by
  rintro ⟨-, -, -, -, text, hs, -⟩
  have hlength := congrArg (fun s : String => s.toList.length) (h.trans hs)
  simp at hlength

end Hashed

/-- **Message keys.** Two messages of an account with one key are the same mail exactly when
neither imitates the other and neither is the other shifted. -/
theorem key_identifies_iff (P : Platform) (hdoc : Documented P) (accountId : Uuid)
    (a b : Envelope) :
    (a.key P accountId = b.key P accountId → SameIdentity a b) ↔
      ¬ Imitates P accountId a b ∧ ¬ Imitates P accountId b a ∧ ¬ Shifted a b ∧ ¬ Shifted b a := by
  by_cases ha : a.header = ""
  · by_cases hb : b.header = ""
    · have hkeys : a.key P accountId = b.key P accountId ↔
          a.joined P accountId = b.joined P accountId := by
        rw [key_of_no_header ha, key_of_no_header hb]
        constructor
        · intro h
          have hlist := congrArg String.toList h
          rw [String.toList_append, String.toList_append] at hlist
          exact hdoc.hexdigest_injective (String.toList_inj.1 (List.append_cancel_left hlist))
        · intro h
          rw [h]
      have himitates : ∀ {x y : Envelope}, x.header = "" → ¬ Imitates P accountId x y := by
        rintro x y hx ⟨-, himitates⟩
        exact hashed_ne_empty (P := P) _ (himitates.symm.trans hx)
      have hsame : SameIdentity a b ↔ a.sender = b.sender ∧ a.title = b.title ∧
          a.receivedAt = b.receivedAt ∧ a.sizeBytes = b.sizeBytes := by
        constructor
        · rintro (⟨hne, -⟩ | ⟨-, -, h⟩)
          · exact absurd ha hne
          · exact h
        · exact fun h => Or.inr ⟨ha, hb, h⟩
      rw [hkeys, joined_eq_iff hdoc ha hb, hsame]
      constructor
      · intro h
        refine ⟨himitates ha, himitates hb, fun hs => ?_, fun hs => ?_⟩
        · exact not_shifted_of_sender (h (Or.inr (Or.inl hs))).1 hs
        · exact not_shifted_of_sender (h (Or.inr (Or.inr hs))).1.symm hs
      · rintro ⟨-, -, hab, hba⟩ (h | h | h)
        · exact h
        · exact absurd h hab
        · exact absurd h hba
    · have hshift : ¬ Shifted a b ∧ ¬ Shifted b a := ⟨fun h => hb h.2.1, fun h => hb h.1⟩
      have hother : ¬ Imitates P accountId a b := fun h => hb h.1
      have hdiffer : ¬ SameIdentity a b := by
        rintro (⟨hne, -⟩ | ⟨-, hempty, -⟩)
        · exact hne ha
        · exact hb hempty
      have hkeys : a.key P accountId = b.key P accountId ↔ Imitates P accountId b a := by
        rw [key_of_no_header ha, key_of_header hb]
        exact ⟨fun h => ⟨ha, h.symm⟩, fun h => h.2.symm⟩
      rw [hkeys]
      exact ⟨fun h => ⟨hother, fun hi => hdiffer (h hi), hshift⟩, fun h hi => absurd hi h.2.1⟩
  · by_cases hb : b.header = ""
    · have hshift : ¬ Shifted a b ∧ ¬ Shifted b a := ⟨fun h => ha h.1, fun h => ha h.2.1⟩
      have hother : ¬ Imitates P accountId b a := fun h => ha h.1
      have hdiffer : ¬ SameIdentity a b := by
        rintro (⟨-, heq⟩ | ⟨hempty, -⟩)
        · exact ha (heq.trans hb)
        · exact ha hempty
      have hkeys : a.key P accountId = b.key P accountId ↔ Imitates P accountId a b := by
        rw [key_of_header ha, key_of_no_header hb]
        exact ⟨fun h => ⟨hb, h⟩, fun h => h.2⟩
      rw [hkeys]
      exact ⟨fun h => ⟨fun hi => hdiffer (h hi), hother, hshift⟩, fun h hi => absurd hi h.1⟩
    · have hnone : ¬ Imitates P accountId a b ∧ ¬ Imitates P accountId b a ∧ ¬ Shifted a b ∧
          ¬ Shifted b a :=
        ⟨fun h => hb h.1, fun h => ha h.1, fun h => ha h.1, fun h => hb h.1⟩
      refine iff_of_true (fun h => ?_) hnone
      rw [key_of_header ha, key_of_header hb] at h
      exact Or.inl ⟨ha, h⟩

/-! ## Two mails with one key -/

section OneKey

def plainText : String :=
  "\x1f".intercalate ["1", "ann@example.com", "hello", "1970-01-01T00:00:10+00:00", "120"]

def shiftedText : String :=
  "\x1f".intercalate ["1", "ann@example.com", "urgent\x1fhello", "1970-01-01T00:00:10+00:00", "120"]

/-- The SHA-256 of the two, and dates of the first minute of the epoch. -/
def minutePlatform : Platform where
  Digest := Unit
  decEq := inferInstance
  sha256 _ := ()
  hexdigest text :=
    if text = plainText then "a91211e0b65cdd601909b92af5b5d12fd1b0cd8337d1b0803cd0fe770c6a2d7b"
    else if text = shiftedText then
      "20f6f0a5cc824eb253b5ec1c8d17d399de314dc8184250ffb19909ae4e933bf3"
    else "x" ++ text
  isoformat t := "1970-01-01T00:00:" ++ toString t ++ "+00:00"

theorem minutePlatform_documented : Documented minutePlatform where
  hexdigest_injective := by
    have hother : ∀ digest : String, digest.toList.head? ≠ some 'x' → ∀ text : String,
        digest ≠ "x" ++ text := by
      rintro digest hdigest text rfl
      exact hdigest (by simp)
    have hplain := hother "a91211e0b65cdd601909b92af5b5d12fd1b0cd8337d1b0803cd0fe770c6a2d7b" (by decide)
    have hshifted := hother "20f6f0a5cc824eb253b5ec1c8d17d399de314dc8184250ffb19909ae4e933bf3" (by decide)
    have hdiffer : "a91211e0b65cdd601909b92af5b5d12fd1b0cd8337d1b0803cd0fe770c6a2d7b" ≠ "20f6f0a5cc824eb253b5ec1c8d17d399de314dc8184250ffb19909ae4e933bf3" := by decide
    intro s t h
    simp only [minutePlatform] at h
    split at h
    · rename_i hs
      split at h
      · rename_i ht
        exact hs.trans ht.symm
      · split at h
        · exact absurd h hdiffer
        · exact absurd h (hplain t)
    · split at h
      · rename_i hs
        split at h
        · exact absurd h.symm hdiffer
        · split at h
          · rename_i ht
            exact hs.trans ht.symm
          · exact absurd h (hshifted t)
      · split at h
        · exact absurd h.symm (hplain s)
        · split at h
          · exact absurd h.symm (hshifted s)
          · have hlist := congrArg String.toList h
            rw [String.toList_append, String.toList_append] at hlist
            exact String.toList_inj.1 (List.append_cancel_left hlist)
  isoformat_injective := by
    intro t u h
    apply toString_injective
    have hlist := congrArg String.toList h
    simp only [minutePlatform, String.toList_append] at hlist
    exact String.toList_inj.1 (List.append_cancel_left (List.append_cancel_right hlist))
  isoformat_nonempty := by
    intro t h
    have hlist := congrArg String.toList h
    simp [minutePlatform] at hlist
  isoformat_clean := by
    intro t h
    simp only [minutePlatform, String.toList_append, List.mem_append] at h
    rcases h with (h | h) | h
    · revert h
      decide
    · exact toString_clean t h
    · revert h
      decide

def hello : Envelope := ⟨none, some "ann@example.com", some "hello", some 10, some 120⟩

theorem key_identifies_hello : SameIdentity hello { hello with messageIdHdr := some "" } :=
  (key_identifies_iff minutePlatform minutePlatform_documented 1 hello
    { hello with messageIdHdr := some "" }).2
    ⟨fun h => hashed_ne_empty _ h.2.symm, fun h => hashed_ne_empty _ h.2.symm,
      not_shifted_of_sender rfl, not_shifted_of_sender rfl⟩ (by decide +kernel)

/-- The same sender and text as one field further on, and a header that is the hashed key. -/
def urgent : Envelope := { hello with subject := some "urgent\x1fhello" }

def moved : Envelope := { hello with fromAddr := some "ann@example.com\x1furgent" }

def imitation : Envelope :=
  { hello with
    messageIdHdr := some
      "sha256:a91211e0b65cdd601909b92af5b5d12fd1b0cd8337d1b0803cd0fe770c6a2d7b"
    subject := some "another mail" }

/-- Two mails without a header whose fields shift over a separator, and a mail whose header is the
hashed key of another, have one key each and are not the same mail. -/
theorem different_mails_share_key :
    (urgent.key minutePlatform 1 = moved.key minutePlatform 1 ∧ ¬ SameIdentity urgent moved) ∧
      (imitation.key minutePlatform 1 = hello.key minutePlatform 1 ∧
        ¬ SameIdentity imitation hello) := by
  refine ⟨⟨by decide +kernel, ?_⟩, by decide +kernel, ?_⟩
  · unfold SameIdentity
    decide
  · unfold SameIdentity
    decide

end OneKey

end MailVerdict.Analysis.MessageKeys
