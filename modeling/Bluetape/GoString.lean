import Mathlib.Data.Int.Notation
import Bluetape.Library.Loop

/-!
# Go strings

A Go string is a list of bytes, and need not be valid UTF-8. This is the part of `strings` and
`unicode/utf8` in which that can be seen: spaces are trimmed character by character (`trimSpace`),
and a check for valid encodings (`validUTF8`). `encoding/json` writes a replacement for every byte
that is not part of one (`toValidUTF8`), and so changes the texts that are not valid.
-/

namespace Bluetape.GoString

open List UInt8

/-- The bytes. -/
abbrev Text := List UInt8

/-- A literal. -/
def ascii (s : String) : Text := s.toList.map fun c => ofNat c.toNat

instance instDecidableMem (t : Text) (l : List Text) : Decidable (t ∈ l) :=
  List.instDecidableMemOfLawfulBEq t l

/-! ### Trimming -/

/-- The encodings of spaces. -/
def spaces : List Text :=
  [[0x09], [0x0A], [0x0B], [0x0C], [0x0D], [0x20], [0xC2, 0x85], [0xC2, 0xA0],
    [0xE1, 0x9A, 0x80], [0xE2, 0x80, 0x80], [0xE2, 0x80, 0x81], [0xE2, 0x80, 0x82],
    [0xE2, 0x80, 0x83], [0xE2, 0x80, 0x84], [0xE2, 0x80, 0x85], [0xE2, 0x80, 0x86],
    [0xE2, 0x80, 0x87], [0xE2, 0x80, 0x88], [0xE2, 0x80, 0x89], [0xE2, 0x80, 0x8A],
    [0xE2, 0x80, 0xA8], [0xE2, 0x80, 0xA9], [0xE2, 0x80, 0xAF], [0xE2, 0x81, 0x9F],
    [0xE3, 0x80, 0x80]]

/-- One of `leading` less at the start. -/
def trimStep (leading : List Text) (t : Text) : Text ⊕ Text :=
  match leading.find? fun s => !s.isEmpty && s.isPrefixOf t with
  | some s => .inl (t.drop s.length)
  | none => .inr t

theorem trimStep_decreases (leading : List Text) :
    Loop.Decreases (trimStep leading) List.length := by
  intro t t' h
  unfold trimStep at h
  split at h
  · rename_i s hs
    cases h
    have hfound := find?_some hs
    rw [Bool.and_eq_true, Bool.not_eq_true', isEmpty_eq_false_iff] at hfound
    have hle := (List.isPrefixOf_iff_prefix.mp hfound.2).length_le
    have hpos := length_pos_iff.mpr hfound.1
    rw [length_drop]
    omega
  · cases h

/-- All of `leading` less at the start. -/
def trimLeading (leading : List Text) (t : Text) : Text :=
  Loop.run (trimStep leading) List.length (trimStep_decreases leading) t

/-- `strings.TrimSpace`. -/
def trimSpace (t : Text) : Text :=
  (trimLeading (spaces.map List.reverse) (trimLeading spaces t).reverse).reverse

variable {t : Text}

/-- What one of them less keeps, all of them less keep. -/
theorem trimLeading_induction {leading : List Text} {P : Text → Prop}
    (hstep : ∀ s ∈ leading, ∀ t, P (s ++ t) → P t) (h : P t) : P (trimLeading leading t) := by
  refine Loop.run_invariant (I := P) (Q := P) (fun t t' h hs => ?_) (fun t r h hs => ?_) h
  · unfold trimStep at hs
    split at hs
    · rename_i s hfind
      cases hs
      have hfound := find?_some hfind
      rw [Bool.and_eq_true] at hfound
      obtain ⟨r, rfl⟩ := List.isPrefixOf_iff_prefix.mp hfound.2
      rw [drop_left]
      exact hstep s (mem_of_find?_eq_some hfind) r h
    · cases hs
  · unfold trimStep at hs
    split at hs
    · cases hs
    · exact Sum.inr.inj hs ▸ h

/-- What is not part of any of them is kept. -/
theorem mem_trimLeading {leading : List Text} {b : UInt8} (hb : ∀ s ∈ leading, b ∉ s) (h : b ∈ t) :
    b ∈ trimLeading leading t :=
  trimLeading_induction (P := (b ∈ ·)) (fun s hs _ h => (mem_append.mp h).resolve_left (hb s hs)) h

theorem mem_trimSpace {b : UInt8} (hb : ∀ s ∈ spaces, b ∉ s) (h : b ∈ t) : b ∈ trimSpace t := by
  rw [trimSpace, mem_reverse]
  refine mem_trimLeading (fun s hs => ?_) (mem_reverse.mpr (mem_trimLeading hb h))
  obtain ⟨s', hs', rfl⟩ := mem_map.mp hs
  rw [mem_reverse]
  exact hb s' hs'

/-! ### Encodings -/

/-- A byte inside of an encoding. -/
def isContinuation (b : UInt8) : Bool := 0x80 ≤ b && b ≤ 0xBF

/-- Between two bytes. -/
def inRange (b low high : UInt8) : Bool := low ≤ b && b ≤ high

/-- Two bytes of an encoding of three. -/
def startsThree (a b : UInt8) : Bool :=
  (a == 0xE0 && inRange b 0xA0 0xBF) || (a == 0xED && inRange b 0x80 0x9F) ||
    ((inRange a 0xE1 0xEC || inRange a 0xEE 0xEF) && isContinuation b)

/-- Two bytes of an encoding of four. -/
def startsFour (a b : UInt8) : Bool :=
  (a == 0xF0 && inRange b 0x90 0xBF) || (a == 0xF4 && inRange b 0x80 0x8F) ||
    (inRange a 0xF1 0xF3 && isContinuation b)

/-- `utf8.ValidString`. -/
def validUTF8 : Text → Bool
  | [] => true
  | a :: rest =>
    if a < 0x80 then validUTF8 rest
    else
      match rest with
      | [] => false
      | b :: rest =>
        if inRange a 0xC2 0xDF && isContinuation b then validUTF8 rest
        else
          match rest with
          | [] => false
          | c :: rest =>
            if startsThree a b && isContinuation c then validUTF8 rest
            else
              match rest with
              | [] => false
              | d :: rest =>
                if startsFour a b && isContinuation c && isContinuation d then validUTF8 rest
                else false

/-- `utf8.RuneStart`. -/
def runeStart (b : UInt8) : Bool := b &&& 0xC0 != 0x80

theorem runeStart_eq (b : UInt8) : runeStart b = !isContinuation b := by
  have hall : ∀ n < 256, runeStart (.ofNat n) = !isContinuation (.ofNat n) := by decide +kernel
  simpa using hall b.toNat b.toNat_lt

theorem runeStart_of_starts {a b : UInt8}
    (h : ((inRange a 0xC2 0xDF && isContinuation b) || startsThree a b || startsFour a b) = true) :
    runeStart a = true ∧ isContinuation b = true := by
  simp only [runeStart_eq, startsThree, startsFour, inRange, isContinuation, Bool.or_eq_true,
    Bool.and_eq_true, decide_eq_true_eq, beq_iff_eq, Bool.not_eq_true', Bool.and_eq_false_iff,
    decide_eq_false_iff_not, le_iff_toNat_le, ← UInt8.toNat_inj] at h ⊢
  simp at h ⊢
  omega

/-- **The valid texts**, character by character. -/
inductive Valid : Text → Prop
  | nil : Valid []
  | one {a : UInt8} {rest : Text} (hlow : a < 0x80) : Valid rest → Valid (a :: rest)
  | two {a b : UInt8} {rest : Text} (hlow : ¬a < 0x80)
    (htwo : (inRange a 0xC2 0xDF && isContinuation b) = true) : Valid rest → Valid (a :: b :: rest)
  | three {a b c : UInt8} {rest : Text} (hlow : ¬a < 0x80)
    (htwo : ¬(inRange a 0xC2 0xDF && isContinuation b) = true)
    (hthree : (startsThree a b && isContinuation c) = true) :
    Valid rest → Valid (a :: b :: c :: rest)
  | four {a b c d : UInt8} {rest : Text} (hlow : ¬a < 0x80)
    (htwo : ¬(inRange a 0xC2 0xDF && isContinuation b) = true)
    (hthree : ¬(startsThree a b && isContinuation c) = true)
    (hfour : (startsFour a b && isContinuation c && isContinuation d) = true) :
    Valid rest → Valid (a :: b :: c :: d :: rest)

theorem valid_of_validUTF8 (h : validUTF8 t = true) : Valid t := by
  fun_induction validUTF8 t <;> try cases h
  · exact .nil
  next hlow ih => exact .one hlow (ih h)
  next hlow _ _ htwo ih => exact .two hlow htwo (ih h)
  next hlow _ htwo _ _ hthree ih => exact .three hlow htwo hthree (ih h)
  next hlow _ htwo _ hthree _ _ hfour ih => exact .four hlow htwo hthree hfour (ih h)

theorem validUTF8_append {s t : Text} (h : validUTF8 s = true) :
    validUTF8 (s ++ t) = validUTF8 t := by
  replace h := valid_of_validUTF8 h
  induction h with
  | nil => rfl
  | one hlow _ ih =>
    rw [cons_append, validUTF8.eq_def]
    simp only [if_pos hlow, ih]
  | two hlow htwo _ ih =>
    rw [cons_append, cons_append, validUTF8.eq_def]
    simp only [if_neg hlow, if_pos htwo, ih]
  | three hlow htwo hthree _ ih =>
    rw [cons_append, cons_append, cons_append, validUTF8.eq_def]
    simp only [if_neg hlow, if_neg htwo, if_pos hthree, ih]
  | four hlow htwo hthree hfour _ ih =>
    rw [cons_append, cons_append, cons_append, cons_append, validUTF8.eq_def]
    simp only [if_neg hlow, if_neg htwo, if_neg hthree, if_pos hfour, ih]

/-- **A valid text is cut between two encodings** exactly where the byte after the cut starts
one. -/
theorem validUTF8_take_iff (h : validUTF8 t = true) (n : ℕ) :
    validUTF8 (t.take n) = true ↔ ∀ b, t[n]? = some b → runeStart b = true := by
  replace h := valid_of_validUTF8 h
  induction h generalizing n with
  | nil => simp [validUTF8]
  | @one a rest hlow _ ih =>
    have hone : validUTF8 [a] = true := by simp [validUTF8, hlow]
    rcases n with _ | n
    · have hstart : runeStart a = true := by simp [runeStart_eq, isContinuation, hlow]
      simp [validUTF8, hstart]
    · rw [take_succ_cons, ← singleton_append, validUTF8_append hone]
      exact ih n
  | @two a b rest hlow htwo _ ih =>
    have hone : validUTF8 [a, b] = true := by simp [validUTF8, hlow, htwo]
    obtain ⟨ha, hb⟩ := runeStart_of_starts (a := a) (b := b) (by rw [htwo]; rfl)
    rcases n with _ | _ | n
    · simp [validUTF8, ha]
    · simp [validUTF8, hlow, runeStart_eq, hb]
    · exact (congrArg (· = true) (validUTF8_append hone)).to_iff.trans (ih n)
  | @three a b c rest hlow htwo hthree _ ih =>
    have hone : validUTF8 [a, b, c] = true := by simp [validUTF8, hlow, htwo, hthree]
    obtain ⟨hab, hc⟩ := (Bool.and_eq_true _ _).mp hthree
    obtain ⟨ha, hb⟩ := runeStart_of_starts (a := a) (b := b) (by simp [hab])
    rcases n with _ | _ | _ | n
    · simp [validUTF8, ha]
    · simp [validUTF8, hlow, runeStart_eq, hb]
    · simp [validUTF8, hlow, htwo, runeStart_eq, hc]
    · exact (congrArg (· = true) (validUTF8_append hone)).to_iff.trans (ih n)
  | @four a b c d rest hlow htwo hthree hfour _ ih =>
    have hone : validUTF8 [a, b, c, d] = true := by simp [validUTF8, hlow, htwo, hthree, hfour]
    obtain ⟨hab, hd⟩ := (Bool.and_eq_true _ _).mp hfour
    obtain ⟨hab, hc⟩ := (Bool.and_eq_true _ _).mp hab
    obtain ⟨ha, hb⟩ := runeStart_of_starts (a := a) (b := b) (by simp [hab])
    rcases n with _ | _ | _ | _ | n
    · simp [validUTF8, ha]
    · simp [validUTF8, hlow, runeStart_eq, hb]
    · simp [validUTF8, hlow, htwo, runeStart_eq, hc]
    · simp [validUTF8, hlow, htwo, hthree, runeStart_eq, hd]
    · exact (congrArg (· = true) (validUTF8_append hone)).to_iff.trans (ih n)

/-- **Trimming keeps a text valid**: a space starts with a byte that starts an encoding. -/
theorem validUTF8_trimSpace (h : validUTF8 t = true) : validUTF8 (trimSpace t) = true := by
  have hleading : validUTF8 (trimLeading spaces t) = true := by
    refine trimLeading_induction (P := (validUTF8 · = true)) (fun s hs t h => ?_) h
    rw [← validUTF8_append ((by decide : ∀ s ∈ spaces, validUTF8 s = true) s hs)]
    exact h
  refine trimLeading_induction (P := fun t => validUTF8 t.reverse = true) (fun s hs t h => ?_)
    ((reverse_reverse _).symm ▸ hleading)
  obtain ⟨s', hs', rfl⟩ := mem_map.mp hs
  rw [reverse_append, reverse_reverse] at h
  have hcut := validUTF8_take_iff h t.reverse.length
  rw [take_left, getElem?_append_right (Nat.le_refl _), Nat.sub_self] at hcut
  have hstart : ∀ s ∈ spaces, s[0]?.all runeStart = true := by decide
  exact hcut.mpr ((Option.all_eq_true _ _).mp (hstart s' hs'))

/-! ### Runes -/

/-- `utf8.RuneError`. -/
def runeError : ℕ := 0xFFFD

/-- `utf8.DecodeRuneInString`: the first character and its width. -/
def decodeRune : Text → ℕ × ℕ
  | [] => (runeError, 0)
  | a :: rest =>
    if a < 0x80 then (a.toNat, 1)
    else
      match rest with
      | [] => (runeError, 1)
      | b :: rest =>
        if inRange a 0xC2 0xDF && isContinuation b then
          ((a.toNat - 0xC0) * 64 + (b.toNat - 0x80), 2)
        else
          match rest with
          | [] => (runeError, 1)
          | c :: rest =>
            if startsThree a b && isContinuation c then
              ((a.toNat - 0xE0) * 4096 + (b.toNat - 0x80) * 64 + (c.toNat - 0x80), 3)
            else
              match rest with
              | [] => (runeError, 1)
              | d :: _ =>
                if startsFour a b && isContinuation c && isContinuation d then
                  ((a.toNat - 0xF0) * 262144 + (b.toNat - 0x80) * 4096 + (c.toNat - 0x80) * 64 +
                    (d.toNat - 0x80), 4)
                else (runeError, 1)

/-- `utf8.RuneLen`. -/
def runeLen (r : ℕ) : ℤ :=
  if r < 0x80 then 1
  else if r < 0x800 then 2
  else if 0xD800 ≤ r ∧ r ≤ 0xDFFF then -1
  else if r ≤ 0xFFFF then 3
  else if r ≤ 0x10FFFF then 4
  else -1

/-- One byte is taken where nothing can be decoded. -/
theorem runeError_spec (a : UInt8) (rest : Text) :
    0 < (runeError, 1).2 ∧ (runeError, 1).2 ≤ (a :: rest).length ∧
      ((runeError, 1).1 ≠ runeError → runeLen (runeError, 1).1 = (runeError, 1).2) :=
  ⟨Nat.one_pos, Nat.succ_pos _, fun h => absurd rfl h⟩

theorem decodeRune_spec {t : Text} (ht : t ≠ []) :
    0 < (decodeRune t).2 ∧ (decodeRune t).2 ≤ t.length ∧
      ((decodeRune t).1 ≠ runeError → runeLen (decodeRune t).1 = (decodeRune t).2) := by
  obtain ⟨a, rest, rfl⟩ := exists_cons_of_ne_nil ht
  unfold decodeRune
  dsimp only
  split
  next hlow => exact ⟨by simp, by simp, fun _ => if_pos hlow⟩
  -- Either nothing is decoded, or the bytes are those of a character of two, three or four.
  repeat' split
  any_goals exact runeError_spec a _
  all_goals
    rename_i h
    refine ⟨by simp, by simp, fun _ => ?_⟩
    simp only [startsThree, startsFour, inRange, isContinuation, Bool.or_eq_true,
      Bool.and_eq_true, decide_eq_true_eq, beq_iff_eq, le_iff_toNat_le,
      ← UInt8.toNat_inj] at h
    simp at h
    unfold runeLen
    repeat' split
    all_goals omega

/-- A character in the range over a string: where it starts, and the string from there. -/
structure Piece where
  start : ℕ
  rest : Text
  deriving DecidableEq, Repr

/-- The character. -/
def Piece.rune (p : Piece) : ℕ := (decodeRune p.rest).1

/-- Where it ends. -/
def Piece.stop (p : Piece) : ℕ := p.start + (decodeRune p.rest).2

/-- The range over a string from a byte on; the bytes inside of a character are skipped. -/
def rangeFrom (start skip : ℕ) : Text → List Piece
  | [] => []
  | a :: t =>
    match skip with
    | 0 => ⟨start, a :: t⟩ :: rangeFrom (start + 1) ((decodeRune (a :: t)).2 - 1) t
    | skip + 1 => rangeFrom (start + 1) skip t

/-- The encoding of `runeError`. -/
def replacement : Text := [0xEF, 0xBF, 0xBD]

/-- A text after it was written and read by `encoding/json`: every byte that is not part of a valid
encoding is replaced. -/
def toValidUTF8 : Text → Text
  | [] => []
  | a :: rest =>
    if a < 0x80 then a :: toValidUTF8 rest
    else
      match rest with
      | [] => replacement
      | b :: rest₁ =>
        if inRange a 0xC2 0xDF && isContinuation b then a :: b :: toValidUTF8 rest₁
        else
          match rest₁ with
          | [] => replacement ++ toValidUTF8 [b]
          | c :: rest₂ =>
            if startsThree a b && isContinuation c then a :: b :: c :: toValidUTF8 rest₂
            else
              match rest₂ with
              | [] => replacement ++ toValidUTF8 [b, c]
              | d :: rest₃ =>
                if startsFour a b && isContinuation c && isContinuation d then
                  a :: b :: c :: d :: toValidUTF8 rest₃
                else replacement ++ toValidUTF8 (b :: c :: d :: rest₃)

theorem toValidUTF8_of_valid (h : validUTF8 t = true) : toValidUTF8 t = t := by
  replace h := valid_of_validUTF8 h
  induction h with
  | nil => rfl
  | one hlow _ ih =>
    rw [toValidUTF8.eq_def]
    simp only [if_pos hlow, ih]
  | two hlow htwo _ ih =>
    rw [toValidUTF8.eq_def]
    simp only [if_neg hlow, if_pos htwo, ih]
  | three hlow htwo hthree _ ih =>
    rw [toValidUTF8.eq_def]
    simp only [if_neg hlow, if_neg htwo, if_pos hthree, ih]
  | four hlow htwo hthree hfour _ ih =>
    rw [toValidUTF8.eq_def]
    simp only [if_neg hlow, if_neg htwo, if_neg hthree, if_pos hfour, ih]

theorem toValidUTF8_ne_nil (h : t ≠ []) : toValidUTF8 t ≠ [] := by
  obtain ⟨a, rest, rfl⟩ := exists_cons_of_ne_nil h
  rw [toValidUTF8.eq_def]
  dsimp only
  repeat' split
  all_goals simp [replacement]

/-! ### Numbers -/

/-- `strconv.Itoa`. -/
def decimal (n : ℕ) : Text := (Nat.toDigits 10 n).map fun c => ofNat c.toNat

/-- `strconv.FormatInt` to base ten. -/
def formatInt : ℤ → Text
  | .ofNat n => decimal n
  | .negSucc n => 0x2D :: decimal (n + 1)

theorem isDigit_of_mem_decimal {n : ℕ} {b : UInt8} (h : b ∈ decimal n) : 0x30 ≤ b ∧ b ≤ 0x39 := by
  obtain ⟨c, hc, rfl⟩ := mem_map.mp h
  have hdigit := Nat.isDigit_of_mem_toDigits (by omega) (by omega) hc
  rw [Char.isDigit_iff_toNat] at hdigit
  rw [le_iff_toNat_le, le_iff_toNat_le, toNat_ofNat']
  simp at hdigit ⊢
  omega

theorem map_decimal (n : ℕ) :
    (decimal n).map (fun b => Char.ofNat b.toNat) = Nat.toDigits 10 n := by
  rw [decimal, map_map]
  refine (map_congr_left fun c hc => ?_).trans (map_id _)
  have hdigit := Nat.isDigit_of_mem_toDigits (by omega) (by omega) hc
  rw [Char.isDigit_iff_toNat] at hdigit
  have hlt : c.toNat < 256 := Nat.lt_of_le_of_lt hdigit.2 (by decide)
  rw [Function.comp_apply, toNat_ofNat', Nat.mod_eq_of_lt hlt, Char.ofNat_toNat, id]

theorem decimal_injective {m n : ℕ} (h : decimal m = decimal n) : m = n := by
  have hdigits : Nat.toDigits 10 m = Nat.toDigits 10 n := by
    rw [← map_decimal m, ← map_decimal n, h]
  rw [← Nat.ofDigitChars_ten_toDigits (n := m), hdigits, Nat.ofDigitChars_ten_toDigits]

theorem formatInt_injective {a b : ℤ} (h : formatInt a = formatInt b) : a = b := by
  -- A minus sign is not a digit.
  have hsign : ∀ m n : ℕ, decimal m ≠ 0x2D :: decimal n := by
    intro m n heq
    have hmem : (0x2D : UInt8) ∈ decimal m := by
      rw [heq]
      exact mem_cons_self
    exact nomatch (isDigit_of_mem_decimal hmem).1
  cases a with
  | ofNat m =>
    cases b with
    | ofNat n => rw [decimal_injective h]
    | negSucc n => exact absurd h (hsign m (n + 1))
  | negSucc m =>
    cases b with
    | ofNat n => exact absurd h.symm (hsign n (m + 1))
    | negSucc n =>
      have heq : m + 1 = n + 1 := decimal_injective (List.cons.inj h).2
      rw [Nat.succ.inj heq]

/-- In lower case. -/
def hexDigit (n : ℕ) : UInt8 := ofNat (if n < 10 then 0x30 + n else 0x57 + n)

/-- `hex.EncodeToString`. -/
def hexEncode (t : Text) : Text :=
  t.flatMap fun b => [hexDigit (b.toNat / 16), hexDigit (b.toNat % 16)]

theorem hexDigit_injective {a b : ℕ} (ha : a < 16) (hb : b < 16)
    (h : hexDigit a = hexDigit b) : a = b := by
  have heq := congrArg toNat h
  rw [hexDigit, hexDigit, toNat_ofNat', toNat_ofNat'] at heq
  split at heq <;> split at heq <;> omega

theorem hexEncode_injective {t t' : Text} (h : hexEncode t = hexEncode t') : t = t' := by
  induction t generalizing t' with
  | nil =>
    cases t' with
    | nil => rfl
    | cons b t' => cases h
  | cons a t ih =>
    cases t' with
    | nil => cases h
    | cons b t' =>
      obtain ⟨hhigh, hrest⟩ := List.cons.inj h
      obtain ⟨hlow, htail⟩ := List.cons.inj hrest
      have ha := a.toNat_lt
      have hb := b.toNat_lt
      have hdiv := hexDigit_injective (by omega) (by omega) hhigh
      have hmod := hexDigit_injective (by omega) (by omega) hlow
      obtain rfl : a = b := toNat.inj (by omega)
      rw [ih htail]

end Bluetape.GoString
