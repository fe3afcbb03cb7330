import Bluetape.GoString
import Mathlib.Data.List.Chain

/-!
# The simple tokenizer

`simpleTokenize` walks over the characters of a string with one token under way. A character of
the same class is joined to it, unless it is a symbol; any other character ends it and begins the
next one.

* The tokens tile the string (`simpleTokenize_tiles`): their spans follow one another from its start
  to its end, none is empty, and the texts are those of the spans. The characters of a token are of
  its class, a symbol is one character, and of two tokens side by side only symbols have the same
  class. Bytes that are no character are symbols of their own, or whatever `unicode` takes the
  replacement character for.
* Without whitespace the tokens are the others of these, with the same spans.
-/

namespace Bluetape.Textsearch

open GoString List

/-! ### The tokenizer -/

/-- Parts of speech, and the zero value. -/
inductive PartOfSpeech
  | unset
  | word
  | number
  | whitespace
  | punctuation
  | symbol
  deriving DecidableEq, Repr

/-- The tables of `unicode`. -/
structure Tables where
  isLetter : ℕ → Bool
  isMark : ℕ → Bool
  isDigit : ℕ → Bool
  isSpace : ℕ → Bool
  isPunct : ℕ → Bool

def simpleTokenPOS (u : Tables) (r : ℕ) : PartOfSpeech :=
  if u.isLetter r || u.isMark r then .word
  else if u.isDigit r then .number
  else if u.isSpace r then .whitespace
  else if u.isPunct r then .punctuation
  else .symbol

def canJoinSimpleToken : PartOfSpeech → Bool
  | .word | .number | .whitespace | .punctuation => true
  | _ => false

def runeWidth (input : Text) (r : ℕ) : ℕ :=
  if r = runeError then (decodeRune input).2 else (runeLen r).toNat

structure SimpleToken where
  start : ℕ
  stop : ℕ
  pos : PartOfSpeech

structure Token where
  text : Text
  start : ℕ
  stop : ℕ
  normalized : Text
  pos : PartOfSpeech
  deriving DecidableEq, Repr

/-- `normalize` is `NormalizeText` in the mode of the options. -/
structure TokenizeOptions where
  normalize : Text → Text
  includeWhitespace : Bool

def slice (input : Text) (start stop : ℕ) : Text := (input.drop start).take (stop - start)

section Tokenize

variable (u : Tables) (input : Text) (normalize : Text → Text) (options : TokenizeOptions)

def newToken (c : SimpleToken) : Token :=
  ⟨slice input c.start c.stop, c.start, c.stop, normalize (slice input c.start c.stop), c.pos⟩

def flush (tokens : List Token) (current : SimpleToken) : List Token :=
  if current.start = current.stop then tokens
  else if current.pos = .whitespace ∧ options.includeWhitespace = false then tokens
  else tokens ++ [newToken input options.normalize current]

/-- The loop over the characters, with the token under way. -/
def tokenizeLoop (tokens : List Token) (current : SimpleToken) : List Piece → List Token
  | [] => flush input options tokens current
  | p :: ps =>
    let stop := p.start + runeWidth p.rest p.rune
    let pos := simpleTokenPOS u p.rune
    if current.start = current.stop then tokenizeLoop tokens ⟨p.start, stop, pos⟩ ps
    else if current.pos = pos ∧ canJoinSimpleToken current.pos = true then
      tokenizeLoop tokens { current with stop := stop } ps
    else tokenizeLoop (flush input options tokens current) ⟨p.start, stop, pos⟩ ps

def simpleTokenize : List Token :=
  tokenizeLoop u input options [] ⟨0, 0, .unset⟩ (rangeFrom 0 0 input)

end Tokenize

/-! ### The characters of a string -/

theorem runeWidth_eq {t : Text} (h : t ≠ []) : runeWidth t (decodeRune t).1 = (decodeRune t).2 := by
  unfold runeWidth
  split
  · rfl
  · rename_i hne
    rw [(decodeRune_spec h).2.2 hne]
    rfl

/-- Characters that follow one another, each from where the one before it ends. -/
def Contiguous : ℕ → List Piece → ℕ → Prop
  | n, [], m => n = m
  | n, p :: ps, m => p.start = n ∧ p.start < p.stop ∧
      p.start + runeWidth p.rest p.rune = p.stop ∧ Contiguous p.stop ps m

theorem contiguous_rangeFrom (start : ℕ) {skip : ℕ} {t : Text} (h : skip ≤ t.length) :
    Contiguous (start + skip) (rangeFrom start skip t) (start + t.length) := by
  induction t generalizing start skip with
  | nil =>
    obtain rfl := Nat.le_zero.mp h
    rfl
  | cons a t ih =>
    cases skip with
    | zero =>
      have hne := cons_ne_nil a t
      obtain ⟨hpos, hle, -⟩ := decodeRune_spec hne
      refine ⟨rfl, Nat.lt_add_of_pos_right hpos, congrArg (start + ·) (runeWidth_eq hne), ?_⟩
      rw [length_cons] at hle ⊢
      convert @ih (start + 1) ((decodeRune (a :: t)).2 - 1) (by omega) using 1
      · simp only [Piece.stop]
        omega
      · omega
    | succ skip =>
      rw [rangeFrom, length_cons]
      rw [length_cons] at h
      convert @ih (start + 1) skip (by omega) using 1 <;> omega

theorem Contiguous.le_start {n m : ℕ} {ps : List Piece} (h : Contiguous n ps m) :
    ∀ q ∈ ps, n ≤ q.start := by
  induction ps generalizing n with
  | nil => exact nofun
  | cons p ps ih =>
    obtain ⟨rfl, hlt, -, hps⟩ := h
    intro q hq
    rcases mem_cons.mp hq with rfl | hq
    · exact le_rfl
    · exact hlt.le.trans (ih hps q hq)

/-! ### Tiles -/

section Tiles

variable {u : Tables} {input : Text} {normalize : Text → Text} {options : TokenizeOptions}
  {c : SimpleToken} {ps : List Piece}

variable (u input normalize) in
/-- The tokens from the one under way on. -/
def tiles (c : SimpleToken) : List Piece → List Token
  | [] => [newToken input normalize c]
  | p :: ps =>
    if c.pos = simpleTokenPOS u p.rune ∧ canJoinSimpleToken c.pos = true then
      tiles { c with stop := p.stop } ps
    else newToken input normalize c :: tiles ⟨p.start, p.stop, simpleTokenPOS u p.rune⟩ ps

/-- The tokens that are not left out. -/
def kept (options : TokenizeOptions) (t : Token) : Bool :=
  !(t.pos = .whitespace ∧ options.includeWhitespace = false)

theorem flush_eq {tokens : List Token} (h : c.start < c.stop) :
    flush input options tokens c =
      tokens ++ [newToken input options.normalize c].filter (kept options) := by
  rw [flush, if_neg h.ne]
  by_cases hws : c.pos = .whitespace ∧ options.includeWhitespace = false
  · simp [hws, kept, newToken]
  · simp [kept, newToken, hws]

/-- **The loop**: the tokens so far, and the tiles from the token under way on. -/
theorem tokenizeLoop_eq {m : ℕ} {tokens : List Token} (hc : c.start < c.stop)
    (hps : Contiguous c.stop ps m) : tokenizeLoop u input options tokens c ps =
      tokens ++ (tiles u input options.normalize c ps).filter (kept options) := by
  induction ps generalizing tokens c with
  | nil => exact flush_eq hc
  | cons p ps ih =>
    obtain ⟨hstart, hlt, hstop, hps⟩ := hps
    rw [tokenizeLoop, tiles]
    simp only [if_neg hc.ne, hstop]
    split
    · exact ih (c := { c with stop := p.stop }) (hc.trans (hstart ▸ hlt)) hps
    · rw [ih hlt hps, flush_eq hc, append_assoc, ← filter_append]
      rfl

/-- **The spans follow one another** to the end of the string, and the texts are theirs. -/
def Spans (input : Text) : ℕ → List Token → Prop
  | n, [] => n = input.length
  | n, t :: ts =>
    t.start = n ∧ n < t.stop ∧ t.text = slice input t.start t.stop ∧ Spans input t.stop ts

theorem Spans.texts {n : ℕ} {ts : List Token} (h : Spans input n ts) :
    (ts.map Token.text).flatten = input.drop n := by
  induction ts generalizing n with
  | nil =>
    obtain rfl : n = input.length := h
    exact drop_length.symm
  | cons t ts ih =>
    obtain ⟨rfl, hlt, htext, hts⟩ := h
    rw [map_cons, flatten_cons, ih hts, htext, slice]
    have hsplit := take_append_drop (t.stop - t.start) (input.drop t.start)
    rwa [drop_drop, Nat.add_sub_cancel' hlt.le] at hsplit

/-- **Of two tokens side by side only symbols have the same class.** -/
def Apart (a b : Token) : Prop := a.pos = b.pos → a.pos = .symbol

variable (u) in
/-- **The characters of a token are of its class, and a symbol is one character.** -/
def Uniform (ps : List Piece) (start stop : ℕ) (pos : PartOfSpeech) : Prop :=
  (∀ q ∈ ps, start ≤ q.start → q.start < stop → simpleTokenPOS u q.rune = pos) ∧
    (pos = .symbol → ∃ q ∈ ps, start = q.start ∧ stop = q.stop)

theorem symbol_of_not_canJoin {r : ℕ} (h : canJoinSimpleToken (simpleTokenPOS u r) ≠ true) :
    simpleTokenPOS u r = .symbol := by
  unfold simpleTokenPOS at h ⊢
  split_ifs at h ⊢ <;> first | rfl | exact absurd rfl h

variable (normalize) in
/-- **The tiles from the token under way on**, after the characters `done`. -/
theorem tiles_spec (done : List Piece) (hc : c.start < c.stop)
    (hps : Contiguous c.stop ps input.length) (hdone : ∀ q ∈ done, q.start < c.stop)
    (huniform : Uniform u done c.start c.stop c.pos) :
    Spans input c.start (tiles u input normalize c ps) ∧
      (∀ t ∈ tiles u input normalize c ps, Uniform u (done ++ ps) t.start t.stop t.pos) ∧
      ∀ a : Token, (a.pos = c.pos → a.pos = .symbol) →
        (a :: tiles u input normalize c ps).IsChain Apart := by
  induction ps generalizing c done with
  | nil =>
    refine ⟨⟨rfl, hc, rfl, hps⟩, fun t ht => ?_, fun a ha => .cons_cons ha (.singleton _)⟩
    obtain rfl := mem_singleton.mp ht
    rw [append_nil]
    exact huniform
  | cons p ps ih =>
    have hrest := hps.le_start
    obtain ⟨hstart, hlt, -, hps⟩ := hps
    have hdone' : ∀ q ∈ done ++ [p], q.start < p.stop := by
      intro q hq
      rcases mem_append.mp hq with hq | hq
      · exact (hdone q hq).trans (hstart ▸ hlt)
      · exact mem_singleton.mp hq ▸ hlt
    rw [tiles, append_cons]
    split
    · rename_i hjoin
      refine ih (c := { c with stop := p.stop }) _ (hc.trans (hstart ▸ hlt)) hps hdone'
        ⟨fun q hq hle _ => ?_, fun hsym => ?_⟩
      · rcases mem_append.mp hq with hq | hq
        · exact huniform.1 q hq hle (hdone q hq)
        · exact mem_singleton.mp hq ▸ hjoin.1.symm
      · rw [show c.pos = .symbol from hsym] at hjoin
        exact nomatch hjoin.2
    · rename_i hsplit
      have hnew : Uniform u (done ++ [p]) p.start p.stop (simpleTokenPOS u p.rune) := by
        refine ⟨fun q hq hle _ => ?_, fun _ => ⟨p, mem_concat_self, rfl, rfl⟩⟩
        rcases mem_append.mp hq with hq | hq
        · exact absurd (hdone q hq) (not_lt.mpr (hstart ▸ hle))
        · rw [mem_singleton.mp hq]
      obtain ⟨hspans, huni, hchain⟩ := ih (c := ⟨p.start, p.stop, _⟩) _ hlt hps hdone' hnew
      refine ⟨⟨rfl, hc, rfl, hstart ▸ hspans⟩, fun t ht => ?_,
        fun a ha => .cons_cons ha (hchain _ fun heq => ?_)⟩
      · rcases mem_cons.mp ht with rfl | ht
        · rw [← append_cons]
          refine ⟨fun q hq hle hq' => ?_, fun hsym => ?_⟩
          · rcases mem_append.mp hq with hq | hq
            · exact huniform.1 q hq hle hq'
            · exact absurd hq' (not_lt.mpr (hrest q hq))
          · obtain ⟨q, hq, hspan⟩ := huniform.2 hsym
            exact ⟨q, mem_append_left _ hq, hspan⟩
        · exact huni t ht
      · have hnot : canJoinSimpleToken c.pos ≠ true := fun hj => hsplit ⟨heq, hj⟩
        rw [show c.pos = _ from heq] at hnot
        exact heq.trans (symbol_of_not_canJoin hnot)

end Tiles

/-- **The tokens tile the string**, in runs of one class, and without whitespace they are the
others of these. -/
theorem simpleTokenize_tiles (u : Tables) (input : Text) (normalize : Text → Text) :
    let tokens := simpleTokenize u input ⟨normalize, true⟩
    (tokens.map Token.text).flatten = input ∧ Spans input 0 tokens ∧
      (∀ t ∈ tokens, Uniform u (rangeFrom 0 0 input) t.start t.stop t.pos) ∧
      tokens.IsChain Apart ∧
      simpleTokenize u input ⟨normalize, false⟩ = tokens.filter (·.pos ≠ .whitespace) := by
  have hcont := contiguous_rangeFrom 0 (Nat.zero_le input.length)
  rw [Nat.zero_add, Nat.zero_add] at hcont
  simp only [simpleTokenize]
  cases hrange : rangeFrom 0 0 input with
  | nil =>
    rw [hrange] at hcont
    obtain rfl := length_eq_zero_iff.mp hcont.symm
    exact ⟨rfl, rfl, nofun, .nil, rfl⟩
  | cons p ps =>
    rw [hrange] at hcont
    obtain ⟨hstart, hlt, hstop, hps⟩ := hcont
    let c : SimpleToken := ⟨p.start, p.stop, simpleTokenPOS u p.rune⟩
    -- the first character begins a token, whatever the options
    have heq : ∀ b, tokenizeLoop u input ⟨normalize, b⟩ [] ⟨0, 0, .unset⟩ (p :: ps) =
        (tiles u input normalize c ps).filter (kept ⟨normalize, b⟩) := by
      intro b
      rw [tokenizeLoop]
      simp only [hstop, if_true]
      exact (tokenizeLoop_eq hlt hps).trans (nil_append _)
    have hall : (tiles u input normalize c ps).filter (kept ⟨normalize, true⟩) =
        tiles u input normalize c ps := filter_eq_self.mpr (by simp [kept])
    have hfirst : Uniform u [p] c.start c.stop c.pos := by
      refine ⟨fun q hq _ _ => ?_, fun _ => ⟨p, mem_singleton.mpr rfl, rfl, rfl⟩⟩
      rw [mem_singleton.mp hq]
    obtain ⟨hspans, huniform, hchain⟩ := tiles_spec normalize [p] hlt hps
      (fun q hq => mem_singleton.mp hq ▸ hlt) hfirst
    rw [heq, heq, hall]
    rw [show c.start = 0 from hstart] at hspans
    refine ⟨hspans.texts, hspans, huniform, (hchain ⟨[], 0, 0, [], .symbol⟩ fun _ => rfl).tail, ?_⟩
    exact filter_congr fun t _ => by simp [kept]

end Bluetape.Textsearch
