import Mathlib.Data.Nat.Notation

/-!
# Base64

The encoder in groups of three bytes, and the decoder as it reads one character after the other:
four characters make three bytes, a pad in the third or fourth place ends the data. Outside of
`strict` it passes over what is no character of the alphabet, and over pads in other places.
What the encoder writes is decoded to what it was given, either way.
-/

namespace MailVerdict.Computation.Base64

def digit (n : ℕ) : Char :=
  if n < 26 then Char.ofNat (65 + n)
  else if n < 52 then Char.ofNat (71 + n)
  else if n < 62 then Char.ofNat (n - 4)
  else if n = 62 then '+'
  else '/'

def value (c : Char) : Option ℕ :=
  if 'A' ≤ c ∧ c ≤ 'Z' then some (c.toNat - 65)
  else if 'a' ≤ c ∧ c ≤ 'z' then some (c.toNat - 71)
  else if '0' ≤ c ∧ c ≤ '9' then some (c.toNat + 4)
  else if c = '+' then some 62
  else if c = '/' then some 63
  else none

/-- `base64.b64encode`. -/
def encode : List UInt8 → List Char
  | [] => []
  | [a] => [digit (a.toNat / 4), digit (a.toNat % 4 * 16), '=', '=']
  | [a, b] =>
    [digit (a.toNat / 4), digit (a.toNat % 4 * 16 + b.toNat / 16), digit (b.toNat % 16 * 4), '=']
  | a :: b :: c :: rest =>
    digit (a.toNat / 4) :: digit (a.toNat % 4 * 16 + b.toNat / 16) ::
      digit (b.toNat % 16 * 4 + c.toNat / 64) :: digit (c.toNat % 64) :: encode rest

/-- `binascii.a2b_base64`: `place` is the place in a group of four, `left` the bits kept of the
last character, `pads` the pads read in a row, `padded` whether there was one. -/
def decodeFrom (strict : Bool) (place left pads : ℕ) (padded : Bool) :
    List Char → Option (List UInt8)
  | [] => if place = 0 then some [] else none
  | c :: rest =>
    if c = '=' then
      if 2 ≤ place then
        if 4 ≤ place + (pads + 1) then
          if strict && !rest.isEmpty then none else some []
        else decodeFrom strict place left (pads + 1) true rest
      else if strict && decide (place = 0) then none
      else decodeFrom strict place left pads true rest
    else
      match value c with
      | none => if strict then none else decodeFrom strict place left pads padded rest
      | some v =>
        if strict && padded then none
        else if place = 0 then decodeFrom strict 1 v 0 padded rest
        else if place = 1 then
          (decodeFrom strict 2 (v % 16) 0 padded rest).map
            (UInt8.ofNat (left * 4 + v / 16) :: ·)
        else if place = 2 then
          (decodeFrom strict 3 (v % 4) 0 padded rest).map (UInt8.ofNat (left * 16 + v / 4) :: ·)
        else (decodeFrom strict 0 0 0 padded rest).map (UInt8.ofNat (left * 64 + v) :: ·)

/-- `base64.b64decode(..., validate=strict)`: the text is ASCII, or it is refused. -/
def decode (strict : Bool) (text : List Char) : Option (List UInt8) :=
  if text.all fun c => decide (c.toNat < 128) then decodeFrom strict 0 0 0 false text else none

theorem digit_spec : ∀ n < 64,
    value (digit n) = some n ∧ digit n ≠ '=' ∧ (digit n).toNat < 128 := by decide

theorem value_digit {n : ℕ} (h : n < 64) : value (digit n) = some n := (digit_spec n h).1

theorem digit_ne_pad {n : ℕ} (h : n < 64) : digit n ≠ '=' := (digit_spec n h).2.1

section
variable (strict : Bool) (left pads n : ℕ) (rest : List Char)

theorem decodeFrom_zero (h : n < 64) :
    decodeFrom strict 0 left pads false (digit n :: rest) =
      decodeFrom strict 1 n 0 false rest := by
  rw [decodeFrom, if_neg (digit_ne_pad h), value_digit h]
  simp

theorem decodeFrom_one (h : n < 64) :
    decodeFrom strict 1 left pads false (digit n :: rest) =
      (decodeFrom strict 2 (n % 16) 0 false rest).map (UInt8.ofNat (left * 4 + n / 16) :: ·) := by
  rw [decodeFrom, if_neg (digit_ne_pad h), value_digit h]
  simp

theorem decodeFrom_two (h : n < 64) :
    decodeFrom strict 2 left pads false (digit n :: rest) =
      (decodeFrom strict 3 (n % 4) 0 false rest).map (UInt8.ofNat (left * 16 + n / 4) :: ·) := by
  rw [decodeFrom, if_neg (digit_ne_pad h), value_digit h]
  simp

theorem decodeFrom_three (h : n < 64) :
    decodeFrom strict 3 left pads false (digit n :: rest) =
      (decodeFrom strict 0 0 0 false rest).map (UInt8.ofNat (left * 64 + n) :: ·) := by
  rw [decodeFrom, if_neg (digit_ne_pad h), value_digit h]
  simp

end

theorem ofNat_of_eq {a : UInt8} {n : ℕ} (h : n = a.toNat) : UInt8.ofNat n = a := by
  rw [h, UInt8.ofNat_toNat]

/-- **Round trip**, read strictly or not. -/
theorem decodeFrom_encode (strict : Bool) (bytes : List UInt8) :
    decodeFrom strict 0 0 0 false (encode bytes) = some bytes := by
  induction bytes using encode.induct with
  | case1 => rfl
  | case2 a =>
    have ha := a.toNat_lt
    rw [encode, decodeFrom_zero _ _ _ _ _ (by omega), decodeFrom_one _ _ _ _ _ (by omega)]
    have hbyte := ofNat_of_eq (a := a) (n := a.toNat / 4 * 4 + a.toNat % 4 * 16 / 16) (by omega)
    rw [hbyte]
    simp [decodeFrom]
  | case3 a b =>
    have ha := a.toNat_lt
    have hb := b.toNat_lt
    rw [encode, decodeFrom_zero _ _ _ _ _ (by omega), decodeFrom_one _ _ _ _ _ (by omega),
      decodeFrom_two _ _ _ _ _ (by omega)]
    have hfirst := ofNat_of_eq (a := a)
      (n := a.toNat / 4 * 4 + (a.toNat % 4 * 16 + b.toNat / 16) / 16) (by omega)
    have hsecond := ofNat_of_eq (a := b)
      (n := (a.toNat % 4 * 16 + b.toNat / 16) % 16 * 16 + b.toNat % 16 * 4 / 4) (by omega)
    rw [hfirst, hsecond]
    simp [decodeFrom]
  | case4 a b c rest ih =>
    have ha := a.toNat_lt
    have hb := b.toNat_lt
    have hc := c.toNat_lt
    rw [encode, decodeFrom_zero _ _ _ _ _ (by omega), decodeFrom_one _ _ _ _ _ (by omega),
      decodeFrom_two _ _ _ _ _ (by omega), decodeFrom_three _ _ _ _ _ (by omega), ih]
    have hfirst := ofNat_of_eq (a := a)
      (n := a.toNat / 4 * 4 + (a.toNat % 4 * 16 + b.toNat / 16) / 16) (by omega)
    have hsecond := ofNat_of_eq (a := b)
      (n := (a.toNat % 4 * 16 + b.toNat / 16) % 16 * 16 + (b.toNat % 16 * 4 + c.toNat / 64) / 4)
      (by omega)
    have hthird := ofNat_of_eq (a := c)
      (n := (b.toNat % 16 * 4 + c.toNat / 64) % 4 * 64 + c.toNat % 64) (by omega)
    rw [hfirst, hsecond, hthird]
    rfl

theorem mem_encode (bytes : List UInt8) :
    ∀ c ∈ encode bytes, c = '=' ∨ ∃ n < 64, c = digit n := by
  have hdigit : ∀ n < 64, digit n = '=' ∨ ∃ m < 64, digit n = digit m :=
    fun n hn => .inr ⟨n, hn, rfl⟩
  induction bytes using encode.induct with
  | case1 => exact fun c hc => absurd hc List.not_mem_nil
  | case2 a =>
    have ha := a.toNat_lt
    simp only [encode, List.forall_mem_cons]
    exact ⟨hdigit _ (by omega), hdigit _ (by omega), .inl trivial, .inl trivial,
      fun _ h => absurd h List.not_mem_nil⟩
  | case3 a b =>
    have ha := a.toNat_lt
    have hb := b.toNat_lt
    simp only [encode, List.forall_mem_cons]
    exact ⟨hdigit _ (by omega), hdigit _ (by omega), hdigit _ (by omega), .inl trivial,
      fun _ h => absurd h List.not_mem_nil⟩
  | case4 a b c rest ih =>
    have ha := a.toNat_lt
    have hb := b.toNat_lt
    have hc := c.toNat_lt
    simp only [encode, List.forall_mem_cons]
    exact ⟨hdigit _ (by omega), hdigit _ (by omega), hdigit _ (by omega), hdigit _ (by omega), ih⟩

theorem ascii_encode (bytes : List UInt8) : ∀ c ∈ encode bytes, c.toNat < 128 := by
  intro c hc
  rcases mem_encode bytes c hc with rfl | ⟨n, hn, rfl⟩
  · decide
  · exact (digit_spec n hn).2.2

theorem decode_encode (strict : Bool) (bytes : List UInt8) :
    decode strict (encode bytes) = some bytes := by
  have hall : ((encode bytes).all fun c => decide (c.toNat < 128)) = true :=
    List.all_eq_true.2 fun c hc => decide_eq_true (ascii_encode bytes c hc)
  rw [decode, if_pos hall, decodeFrom_encode]

theorem length_encode (bytes : List UInt8) :
    (encode bytes).length = 4 * ((bytes.length + 2) / 3) := by
  induction bytes using encode.induct with
  | case1 => rfl
  | case2 a => simp [encode]
  | case3 a b => simp [encode]
  | case4 a b c rest ih =>
    simp only [encode, List.length_cons, ih]
    omega

end MailVerdict.Computation.Base64
