import Mathlib.Data.List.Basic
import Bluetape.Jwt.CacheKey

/-!
# Keys, tokens and the parse without a cache

A provider has one fixed key, or the keys of a repository, which come and go: a rotation puts a new
key in front, and the oldest are dropped. A token names the key it was signed with. It is accepted
when that key is there and not expired, the signature is right and the claims hold at the time
(`parse`). What is accepted is the token's own header and claims, as a `Reader`.

The cached providers keep a `Reader` and later ask less: whether the token has expired and whether
the key is there. `parse_of_vetted` says why that is enough. Everything else about the token has
been checked once (`Vetted`) and cannot fail later: a key with the same kid is the same key, and
claims that were valid are so until the token expires.

Decoding a token, checking a signature and validating the claims are those of a library, and
parameters here (`Jws`).
-/

namespace Bluetape.Jwt

open GoString

/-! ### Keys -/

structure KeyChain where
  kid : Text
  algorithm : Text
  createdAt : ℤ
  /-- `expiresAt`, unless it is the zero time. -/
  expiresAt : Option ℤ
  /-- `signingKey` and `verificationKey`. -/
  material : Text
  deriving DecidableEq

def KeyChain.expired (k : KeyChain) (now : ℤ) : Bool := k.expiresAt.any fun t => decide (t ≤ now)

variable {k : KeyChain}

theorem KeyChain.not_expired_of_le {now later : ℤ} (hle : now ≤ later)
    (h : k.expired later = false) :
    k.expired now = false := by
  unfold KeyChain.expired at h ⊢
  cases hexp : k.expiresAt with
  | none => rfl
  | some t =>
    rw [hexp] at h
    simp only [Option.any_some, decide_eq_false_iff_not, Int.not_le] at h ⊢
    omega

def maxKIDBytes : ℕ := 128

/-- `validateKID`, which `validateLookupKID` asks too. -/
def validKID (kid : Text) : Bool :=
  decide (kid ≠ []) && decide (kid.length ≤ maxKIDBytes) &&
    kid.all fun b => decide (0x21 ≤ b) && decide (b ≤ 0x7E)

/-! ### The repository -/

/-- `find` of a repository. -/
def repoFind (keys : List KeyChain) (kid : Text) (now : ℤ) : Option KeyChain :=
  if validKID kid then (keys.find? fun k => decide (k.kid = kid)).filter fun k => !k.expired now
  else none

/-- `current` of the repository of a process. -/
def repoCurrent (keys : List KeyChain) (now : ℤ) : Option KeyChain :=
  keys.find? fun k => !k.expired now

def prependLocked (capacity : ℕ) (key : KeyChain) (keys : List KeyChain) : List KeyChain :=
  (key :: keys).take capacity

/-- `forceRotate`: the keys afterwards. -/
def forceRotate (capacity : ℕ) (key : KeyChain) (keys : List KeyChain) : List KeyChain :=
  prependLocked capacity key keys

/-- `rotate`: the key that is returned, and the keys afterwards; `key` is what `create` returns. -/
def rotate (capacity : ℕ) (key : KeyChain) (keys : List KeyChain) (now : ℤ) :
    KeyChain × List KeyChain :=
  match repoCurrent keys now with
  | some current => (current, keys)
  | none => (key, prependLocked capacity key keys)

/-- **What a rotation can do to the keys**: add one, and drop some. -/
def Rotates (key : KeyChain) (keys keys' : List KeyChain) : Prop := ∀ k ∈ keys', k = key ∨ k ∈ keys
  deriving Decidable

theorem rotates_forceRotate (capacity : ℕ) (key : KeyChain) (keys : List KeyChain) :
    Rotates key keys (forceRotate capacity key keys) := by
  intro k hk
  exact List.mem_cons.mp (List.mem_of_mem_take hk)

variable {now : ℤ}

theorem of_repoFind_eq_some {keys : List KeyChain} {kid : Text} (h : repoFind keys kid now = some k)
    :
    validKID kid = true ∧ k ∈ keys ∧ k.kid = kid ∧ k.expired now = false := by
  unfold repoFind at h
  by_cases hkid : validKID kid = true
  · rw [if_pos hkid] at h
    obtain ⟨hfound, hlive⟩ := Option.filter_eq_some_iff.mp h
    refine ⟨hkid, List.mem_of_find?_eq_some hfound, ?_, ?_⟩
    · simpa using List.find?_some hfound
    · simpa using hlive
  · rw [if_neg hkid] at h
    cases h

theorem repoFind_eq_some {keys : List KeyChain} {kid : Text} (hvalid : validKID kid = true)
    (hmem : k ∈ keys) (hkid : k.kid = kid) (hlive : k.expired now = false)
    (hone : ∀ k' ∈ keys, k'.kid = kid → k' = k) : repoFind keys kid now = some k := by
  rw [repoFind, if_pos hvalid]
  cases hfind : keys.find? fun k => decide (k.kid = kid) with
  | none =>
    have := List.find?_eq_none.mp hfind k hmem
    exact absurd (decide_eq_true hkid) this
  | some k' =>
    have hkid' : k'.kid = kid := by simpa using List.find?_some hfind
    rw [hone k' (List.mem_of_find?_eq_some hfind) hkid', Option.filter_some, hlive]
    rfl

/-! ### Tokens -/

/-- The claims of a token: the time of `exp`, and all others. -/
structure Claims where
  expiresAt : Option ℤ
  others : Text
  deriving DecidableEq

/-- What is accepted of a token: its header and its claims. -/
structure Reader where
  kid : Text
  algorithm : Text
  headers : Text
  claims : Claims
  deriving DecidableEq

/-- `IsExpired`: there is an `exp`, and it is not later than now. -/
def Reader.isExpired (r : Reader) (now : ℤ) : Bool :=
  r.claims.expiresAt.any fun t => decide (t ≤ now)

/-- **What the providers leave to the JWT library**: to decode a token, to check its signature, and
to validate its claims with the options of the parse. All that is asked of the validation is that
claims which were valid stay so until the token expires, with a leeway that is not negative. -/
structure Jws where
  decode : Text → Option Reader
  /-- There is no header that `rejectUnsupportedInboundHeaders` rejects. -/
  supported : Reader → Bool
  verifies : Text → KeyChain → Bool
  validClaims : ParseConfig → ℤ → Claims → Bool
  valid_until_expired : ∀ {cfg : ParseConfig} {now later : ℤ} {r : Reader}, 0 ≤ cfg.leeway →
    now ≤ later → r.isExpired later = false → validClaims cfg now r.claims = true →
    validClaims cfg later r.claims = true

/-! ### The parse -/

/-- `Provider`, without its repository. -/
structure Provider where
  algorithm : Text
  fixedKey : Option KeyChain

/-- `FindKeyChain`. -/
def Provider.find (p : Provider) (keys : List KeyChain) (kid : Text) (now : ℤ) :
    Option KeyChain :=
  match p.fixedKey with
  | some key => if kid = [] ∨ kid = key.kid then some key else none
  | none => repoFind keys kid now

def Provider.accepts (p : Provider) (jws : Jws) (r : Reader) : Bool :=
  decide (r.algorithm = p.algorithm) && jws.supported r

def Provider.signedBy (p : Provider) (jws : Jws) (token : Text) (key : KeyChain) : Bool :=
  decide (key.algorithm = p.algorithm) && jws.verifies token key

/-- **The parse without a cache**, of the keys that are stored and at a time. -/
def parse (jws : Jws) (p : Provider) (keys : List KeyChain) (now : ℤ) (cfg : ParseConfig)
    (token : Text) : Option Reader :=
  if token = [] then none
  else
    (jws.decode token).filter (p.accepts jws) |>.bind fun r =>
      (p.find keys r.kid now).bind fun key =>
        if p.signedBy jws token key && jws.validClaims cfg now r.claims then some r else none

/-! ### What is checked once -/

/-- The key with this kid, among all keys that were ever stored. -/
def Provider.Known (p : Provider) (used : List KeyChain) (kid : Text) (key : KeyChain) : Prop :=
  match p.fixedKey with
  | some fixed => key = fixed ∧ (kid = [] ∨ kid = fixed.kid)
  | none => key ∈ used ∧ key.kid = kid ∧ validKID kid = true

variable {p : Provider}

theorem Provider.Known.mono {used used' : List KeyChain} {kid : Text} {key : KeyChain}
    (h : p.Known used kid key) (hused : ∀ k ∈ used, k ∈ used') : p.Known used' kid key := by
  unfold Provider.Known at h ⊢
  cases hfixed : p.fixedKey with
  | some fixed =>
    rw [hfixed] at h
    exact h
  | none =>
    rw [hfixed] at h
    exact ⟨hused key h.1, h.2⟩

/-- **What stays true of a token that was accepted**, of all keys that were ever stored and at a
time. -/
structure Vetted (jws : Jws) (p : Provider) (used : List KeyChain) (now : ℤ) (cfg : ParseConfig)
    (token : Text) (r : Reader) : Prop where
  token_ne_nil : token ≠ []
  decoded : jws.decode token = some r
  accepted : p.accepts jws r = true
  signed : ∃ key, p.Known used r.kid key ∧ p.signedBy jws token key = true
  /-- The claims were valid once. -/
  valid : ∃ earlier ≤ now, jws.validClaims cfg earlier r.claims = true

variable {cfg : ParseConfig}

theorem Vetted.mono {jws : Jws} {used used' : List KeyChain} {now later : ℤ} {token : Text}
    {r : Reader} (h : Vetted jws p used now cfg token r) (hused : ∀ k ∈ used, k ∈ used')
    (hle : now ≤ later) : Vetted jws p used' later cfg token r where
  token_ne_nil := h.token_ne_nil
  decoded := h.decoded
  accepted := h.accepted
  signed := by
    obtain ⟨key, hknown, hsigned⟩ := h.signed
    exact ⟨key, hknown.mono hused, hsigned⟩
  valid := by
    obtain ⟨earlier, hle', hvalid⟩ := h.valid
    exact ⟨earlier, Int.le_trans hle' hle, hvalid⟩

/-- **The claims of a token that was vetted are valid** as long as it has not expired. -/
theorem Vetted.valid_now {jws : Jws} {used : List KeyChain} {token : Text} {r : Reader}
    (h : Vetted jws p used now cfg token r) (hleeway : 0 ≤ cfg.leeway)
    (hlive : r.isExpired now = false) : jws.validClaims cfg now r.claims = true := by
  obtain ⟨earlier, hle, hvalid⟩ := h.valid
  exact jws.valid_until_expired hleeway hle hlive hvalid

/-- No two keys that were ever stored have the same kid. -/
def DistinctKids (used : List KeyChain) : Prop := ∀ k ∈ used, ∀ k' ∈ used, k.kid = k'.kid → k = k'

/-- **A token that was vetted is accepted** when its key is there and has not expired, and its
claims are valid. -/
theorem parse_of_vetted {jws : Jws} {keys used : List KeyChain} {token : Text} {r : Reader}
    (h : Vetted jws p used now cfg token r) (hkeys : ∀ k ∈ keys, k ∈ used)
    (hdistinct : DistinctKids used)
    (hkey : p.fixedKey = none → ∃ k ∈ keys, k.kid = r.kid ∧ k.expired now = false)
    (hvalid : jws.validClaims cfg now r.claims = true) :
    parse jws p keys now cfg token = some r := by
  obtain ⟨key, hknown, hsigned⟩ := h.signed
  have hfind : p.find keys r.kid now = some key := by
    unfold Provider.Known at hknown
    unfold Provider.find
    cases hfixed : p.fixedKey with
    | some fixed =>
      rw [hfixed] at hknown
      obtain ⟨rfl, hkid⟩ := hknown
      exact if_pos hkid
    | none =>
      rw [hfixed] at hknown
      obtain ⟨hused, hkid, hvalid⟩ := hknown
      -- The stored key with this kid is the one that has verified the signature.
      obtain ⟨k, hk, hkkid, hlive⟩ := hkey hfixed
      have hsame : ∀ k' ∈ keys, k'.kid = r.kid → k' = key := fun k' hk' hkid' =>
        hdistinct k' (hkeys k' hk') key hused (hkid'.trans hkid.symm)
      obtain rfl := hsame k hk hkkid
      exact repoFind_eq_some hvalid hk hkkid hlive hsame
  rw [parse, if_neg h.token_ne_nil, h.decoded, Option.filter_some, if_pos h.accepted,
    Option.bind_some, hfind, Option.bind_some, hsigned, hvalid]
  rfl

end Bluetape.Jwt
