import Bluetape.GoString

/-!
# The text of a failure

`MarkFailed` stores the message of an error in the column `last_error`, which is a PostgreSQL
`text`: no statement with a text that is not valid UTF-8, or has a zero byte, is executed. What the
column accepts is a parameter here, of which this is known. The message is trimmed and cut at
`maxErrorBytes` bytes, wherever that is in a character. So the text is short enough and a beginning
of the trimmed message, but it is valid only where the cut falls between two characters, and a zero
byte of the message that is not cut off stays in it (`sanitizeFailure_storable_iff`); such a failure
cannot be recorded. `core.TruncateUTF8Bytes`, which steps back to the start of a character, has no
such messages (`truncateUTF8Bytes_valid`), and does not cut off more than it has to
(`truncateUTF8Bytes_longest`).
-/

namespace Bluetape.Outbox

open GoString (Text validUTF8 trimSpace runeStart)

def defaultMaxErrorBytes : ℤ := 2048

/-- The limit of `NewStore`. -/
def newMaxErrorBytes (option : ℤ) : Except String ℕ :=
  let maxErrorBytes := if option = 0 then defaultMaxErrorBytes else option
  if maxErrorBytes < 0 then
    .error "invalid sqloutbox argument: max error bytes must not be negative"
  else .ok maxErrorBytes.toNat

/-- The message of an error without its limit; there is none without an error. -/
def failureMessage : Option Text → Text
  | none => []
  | some message => trimSpace message

def sanitizeFailure (maxErrorBytes : ℕ) (err : Option Text) : Text :=
  let message := failureMessage err
  if maxErrorBytes < message.length then message.take maxErrorBytes else message

theorem sanitizeFailure_eq_take (maxErrorBytes : ℕ) (err : Option Text) :
    sanitizeFailure maxErrorBytes err = (failureMessage err).take maxErrorBytes := by
  by_cases hlt : maxErrorBytes < (failureMessage err).length
  · exact if_pos hlt
  · exact (if_neg hlt).trans (List.take_of_length_le (Nat.le_of_not_lt hlt)).symm

/-- **When the text of a failure can be stored**, in a column that accepts the texts that are valid
and without a zero byte: it is short and a beginning of its message in any case, it is valid exactly
where it is not cut inside a character, and it is accepted exactly if, in addition, the message has
no zero byte before the limit. -/
theorem sanitizeFailure_storable_iff (accepts : Text → Prop)
    (haccepts : ∀ text, accepts text ↔ validUTF8 text = true ∧ 0 ∉ text) (maxErrorBytes : ℕ)
    (err : Option Text) (hvalid : ∀ message, err = some message → validUTF8 message = true) :
    (sanitizeFailure maxErrorBytes err).length ≤ maxErrorBytes ∧
      sanitizeFailure maxErrorBytes err <+: failureMessage err ∧
      (validUTF8 (sanitizeFailure maxErrorBytes err) = true ↔
        ∀ b, (failureMessage err)[maxErrorBytes]? = some b → runeStart b = true) ∧
      (accepts (sanitizeFailure maxErrorBytes err) ↔
        (∀ b, (failureMessage err)[maxErrorBytes]? = some b → runeStart b = true) ∧
        ∀ i, i < maxErrorBytes → (failureMessage err)[i]? ≠ some 0) := by
  have hmessage : validUTF8 (failureMessage err) = true := by
    cases err with
    | none => rfl
    | some message => exact GoString.validUTF8_trimSpace (hvalid message rfl)
  have hzero : 0 ∉ (failureMessage err).take maxErrorBytes ↔
      ∀ i, i < maxErrorBytes → (failureMessage err)[i]? ≠ some 0 := by
    simp only [List.mem_iff_getElem?, List.getElem?_take, not_exists]
    refine forall_congr' fun i => ?_
    by_cases hlt : i < maxErrorBytes <;> simp [hlt]
  rw [haccepts, sanitizeFailure_eq_take, hzero, GoString.validUTF8_take_iff hmessage]
  exact ⟨List.length_take_le _ _, List.take_prefix _ _, Iff.rfl, Iff.rfl⟩

/-- A limit after a character of two bytes. -/
theorem sanitizeFailure_storable_between :
    validUTF8 (sanitizeFailure 3 (some [0x61, 0xC3, 0xA9, 0x62])) = true ∧
      0 ∉ sanitizeFailure 3 (some [0x61, 0xC3, 0xA9, 0x62]) :=
  (sanitizeFailure_storable_iff (fun text => validUTF8 text = true ∧ 0 ∉ text)
    (fun _ => Iff.rfl) 3 (some [0x61, 0xC3, 0xA9, 0x62])
    (fun _ h => Option.some.inj h ▸ by decide)).2.2.2.mpr
    ⟨fun _ h => Option.some.inj h ▸ by decide, by decide⟩

/-- **Failures that cannot be recorded**, of a store with the default limit: after 2047 letters,
a character of two bytes; and a short message with a zero byte, which is kept. -/
theorem sanitizeFailure_cuts_character :
    newMaxErrorBytes 0 = .ok 2048 ∧
      validUTF8 (List.replicate 2047 0x61 ++ [0xC3, 0xA9]) = true ∧
      validUTF8 (sanitizeFailure 2048 (some (List.replicate 2047 0x61 ++ [0xC3, 0xA9]))) =
        false ∧
      validUTF8 [0x61, 0, 0x62] = true ∧
      sanitizeFailure 2048 (some [0x61, 0, 0x62]) = [0x61, 0, 0x62] :=
  ⟨rfl, by decide +kernel, by decide +kernel, by decide +kernel, by decide +kernel⟩

/-! ### The other truncation -/

/-- The last start of a character up to `n`. -/
def backToRuneStart (value : Text) : ℕ → ℕ
  | 0 => 0
  | n + 1 => if value[n + 1]?.all runeStart then n + 1 else backToRuneStart value n

def truncateUTF8Bytes (value : Text) (maxBytes : ℤ) : Except String Text :=
  if maxBytes < 0 then .error s!"core: invalid argument: maxBytes[{maxBytes}] must be non-negative"
  else if !validUTF8 value then .error "truncate UTF-8 bytes: invalid UTF-8 text"
  else if value.length ≤ maxBytes then .ok value
  else .ok (value.take (backToRuneStart value maxBytes.toNat))

theorem backToRuneStart_le (value : Text) (n : ℕ) : backToRuneStart value n ≤ n := by
  induction n with
  | zero => exact Nat.le_refl 0
  | succ n ih =>
    rw [backToRuneStart]
    split
    · exact Nat.le_refl (n + 1)
    · exact Nat.le_succ_of_le ih

/-- Where it steps back to, a valid text can be cut. -/
theorem validUTF8_take_backToRuneStart {value : Text} (h : validUTF8 value = true) (n : ℕ) :
    validUTF8 (value.take (backToRuneStart value n)) = true := by
  induction n with
  | zero => rfl
  | succ n ih =>
    rw [backToRuneStart]
    split
    next hstart =>
      exact (GoString.validUTF8_take_iff h (n + 1)).mpr ((Option.all_eq_true _ _).mp hstart)
    · exact ih

theorem truncateUTF8Bytes_natCast {value : Text} (h : validUTF8 value = true) (maxBytes : ℕ) :
    truncateUTF8Bytes value maxBytes = .ok (if value.length ≤ maxBytes then value
      else value.take (backToRuneStart value maxBytes)) := by
  rw [truncateUTF8Bytes, if_neg (Int.not_lt.mpr (Int.natCast_nonneg maxBytes)), h, if_neg nofun]
  simp only [Int.ofNat_le, Int.toNat_natCast]
  split <;> rfl

/-- **`TruncateUTF8Bytes` cuts every valid text to a valid one.** -/
theorem truncateUTF8Bytes_valid {value : Text} (h : validUTF8 value = true) (maxBytes : ℕ) :
    ∃ text, truncateUTF8Bytes value maxBytes = .ok text ∧ validUTF8 text = true ∧
      text.length ≤ maxBytes ∧ text <+: value := by
  rw [truncateUTF8Bytes_natCast h]
  split
  next hle => exact ⟨value, rfl, h, hle, List.prefix_rfl⟩
  · refine ⟨_, rfl, validUTF8_take_backToRuneStart h _, ?_, List.take_prefix _ _⟩
    exact Nat.le_trans (List.length_take_le _ _) (backToRuneStart_le value maxBytes)

/-- It does not step over the start of a character. -/
theorem le_backToRuneStart {value : Text} {m n : ℕ} (hm : value[m]?.all runeStart = true)
    (hle : m ≤ n) : m ≤ backToRuneStart value n := by
  induction n with
  | zero => exact hle
  | succ n ih =>
    rw [backToRuneStart]
    split
    · exact hle
    next hnot =>
      refine ih (Nat.le_of_lt_succ (Nat.lt_of_le_of_ne hle ?_))
      rintro rfl
      exact hnot hm

/-- **`TruncateUTF8Bytes` gives the longest prefix that is valid and not longer than the limit**;
it has an error for limits that no text keeps. -/
theorem truncateUTF8Bytes_longest {value : Text} (h : validUTF8 value = true) (maxBytes : ℤ) :
    (maxBytes < 0 ∧ ∃ err, truncateUTF8Bytes value maxBytes = .error err) ∨
      ∃ text, truncateUTF8Bytes value maxBytes = .ok text ∧ text <+: value ∧
        validUTF8 text = true ∧ text.length ≤ maxBytes ∧
        ∀ longer, longer <+: value → validUTF8 longer = true → longer.length ≤ maxBytes →
          longer.length ≤ text.length := by
  by_cases hneg : maxBytes < 0
  · exact .inl ⟨hneg, _, if_pos hneg⟩
  obtain ⟨n, rfl⟩ := Int.eq_ofNat_of_zero_le (Int.not_lt.mp hneg)
  obtain ⟨text, htext, hvalid, hle, hprefix⟩ := truncateUTF8Bytes_valid h n
  refine .inr ⟨text, htext, hprefix, hvalid, Int.ofNat_le.mpr hle, ?_⟩
  intro longer hlonger hvalid' hle'
  -- A valid prefix ends where a character starts.
  have hstart : value[longer.length]?.all runeStart = true := by
    rw [List.prefix_iff_eq_take.mp hlonger] at hvalid'
    exact (Option.all_eq_true _ _).mpr ((GoString.validUTF8_take_iff h _).mp hvalid')
  cases (truncateUTF8Bytes_natCast h n).symm.trans htext
  split
  · exact hlonger.length_le
  · rw [List.length_take]
    exact Nat.le_min.mpr ⟨le_backToRuneStart hstart (Int.ofNat_le.mp hle'), hlonger.length_le⟩

/-- Four bytes are not enough for the second of two characters. -/
theorem truncateUTF8Bytes_longest_cut : ∃ text,
    truncateUTF8Bytes [0xE2, 0x82, 0xAC, 0xC3, 0xA9] 4 = .ok text ∧ text = [0xE2, 0x82, 0xAC] ∧
      text <+: [0xE2, 0x82, 0xAC, 0xC3, 0xA9] := by
  have hvalid : validUTF8 [0xE2, 0x82, 0xAC, 0xC3, 0xA9] = true := by decide
  rcases truncateUTF8Bytes_longest hvalid 4 with ⟨hneg, -⟩ | ⟨text, htext, hprefix, -⟩
  · exact nomatch hneg
  · refine ⟨text, htext, ?_, hprefix⟩
    cases htext
    decide

end Bluetape.Outbox
