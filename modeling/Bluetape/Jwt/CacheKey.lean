import Bluetape.GoString

/-!
# The key of a parsed token

What the cached JWT providers keep is found under a key that is made of the token and of the options
it was parsed with. A key is a text of fields, each with its name and its length, and the token and
the options are in it as SHA-256 digests. So two parses have the same key only if they have the same
token and the same options (`cacheKey_injective`), as far as SHA-256 has no collisions.

A parse with a clock of its own is not cached: a value that was accepted at the time of one clock
says nothing about another.
-/

namespace Bluetape.Jwt

open GoString List

/-! ### Options of a parse -/

/-- `parseConfig`; the clock itself is not in it. -/
structure ParseConfig where
  leeway : ℤ
  expectedIssuer : Text
  expectedAudience : List Text
  expectedSubject : Text
  expirationRequired : Bool
  customClock : Bool
  deriving DecidableEq

/-- `ParseOption`; a nil option is `none` in the list of options. -/
inductive ParseOption where
  | leeway (d : ℤ)
  | expectedIssuer (issuer : Text)
  | expectedAudience (audience : List Text)
  | expectedSubject (subject : Text)
  | expirationRequired
  | parseClock (isNil : Bool)
  deriving DecidableEq

/-- Why an option is refused. -/
inductive OptionError where
  | leeway
  | parseClock
  | parseOption
  deriving DecidableEq

/-- One option. -/
def ParseOption.apply (cfg : ParseConfig) : ParseOption → Except OptionError ParseConfig
  | .leeway d => if d < 0 then .error .leeway else .ok { cfg with leeway := d }
  | .expectedIssuer issuer => .ok { cfg with expectedIssuer := issuer }
  | .expectedAudience audience => .ok { cfg with expectedAudience := audience }
  | .expectedSubject subject => .ok { cfg with expectedSubject := subject }
  | .expirationRequired => .ok { cfg with expirationRequired := true }
  | .parseClock isNil => if isNil then .error .parseClock else .ok { cfg with customClock := true }

/-- The options before any is applied. -/
def ParseConfig.default : ParseConfig := ⟨0, [], [], [], false, false⟩

def applyOptions (cfg : ParseConfig) :
    List (Option ParseOption) → Except OptionError ParseConfig
  | [] => .ok cfg
  | none :: _ => .error .parseOption
  | some option :: options =>
    match option.apply cfg with
    | .error err => .error err
    | .ok cfg => applyOptions cfg options

/-- `normalizeParseConfig`. -/
def normalizeParseConfig (options : List (Option ParseOption)) :
    Except OptionError ParseConfig :=
  applyOptions .default options

theorem leeway_of_apply {cfg cfg' : ParseConfig} {option : ParseOption} (hcfg : 0 ≤ cfg.leeway)
    (h : option.apply cfg = .ok cfg') : 0 ≤ cfg'.leeway := by
  cases option with
  | leeway d =>
    by_cases hneg : d < 0
    · simp [ParseOption.apply, hneg] at h
    · simp only [ParseOption.apply, if_neg hneg] at h
      cases h
      exact Int.not_lt.mp hneg
  | parseClock isNil =>
    cases isNil with
    | true => cases h
    | false =>
      cases h
      exact hcfg
  | _ =>
    cases h
    exact hcfg

/-- **A leeway that is accepted is not negative.** -/
theorem leeway_nonneg {options : List (Option ParseOption)} {cfg : ParseConfig}
    (h : normalizeParseConfig options = .ok cfg) : 0 ≤ cfg.leeway := by
  have key : ∀ (start : ParseConfig), 0 ≤ start.leeway → applyOptions start options = .ok cfg →
      0 ≤ cfg.leeway := by
    clear h
    induction options with
    | nil =>
      intro start hstart h
      cases h
      exact hstart
    | cons option options ih =>
      intro start hstart h
      cases option with
      | none => cases h
      | some option =>
        rw [applyOptions] at h
        cases happly : option.apply start with
        | error err =>
          rw [happly] at h
          cases h
        | ok next =>
          rw [happly] at h
          exact ih next (leeway_of_apply hstart happly) h
  exact key .default (Int.le_refl 0) h

/-! ### Fields -/

/-- What `appendField` appends. -/
def field (name value : Text) : Text :=
  name ++ 0x3D :: (decimal value.length ++ 0x3A :: (value ++ [0x3B]))

/-- What `appendHexField` appends. -/
def hexField (name value : Text) : Text := field name (hexEncode value)

theorem append_cons_inj {c : UInt8} {a b x y : Text} (ha : c ∉ a) (hb : c ∉ b)
    (h : a ++ c :: x = b ++ c :: y) : a = b ∧ x = y := by
  induction a generalizing b with
  | nil =>
    cases b with
    | nil => exact ⟨rfl, (List.cons.inj h).2⟩
    | cons e b => exact absurd ((List.cons.inj h).1 ▸ mem_cons_self) hb
  | cons d a ih =>
    cases b with
    | nil => exact absurd ((List.cons.inj h).1 ▸ mem_cons_self) ha
    | cons e b =>
      obtain ⟨hhead, htail⟩ := List.cons.inj h
      obtain ⟨htexts, hrest⟩ := ih (not_mem_of_not_mem_cons ha) (not_mem_of_not_mem_cons hb) htail
      exact ⟨by rw [hhead, htexts], hrest⟩

/-- **A field can be read back**, whatever follows it. -/
theorem field_append_inj {name v v' r r' : Text} (h : field name v ++ r = field name v' ++ r') :
    v = v' ∧ r = r' := by
  have hcolon : ∀ n, (0x3A : UInt8) ∉ decimal n := fun n hmem =>
    (nomatch (isDigit_of_mem_decimal hmem).2)
  simp only [field, append_assoc, cons_append, nil_append] at h
  have hafter := (List.cons.inj (append_cancel_left h)).2
  obtain ⟨hlength, hrest⟩ := append_cons_inj (hcolon _) (hcolon _) hafter
  obtain ⟨hvalue, htail⟩ := append_inj hrest (decimal_injective hlength)
  exact ⟨hvalue, (List.cons.inj htail).2⟩

theorem hexField_append_inj {name v v' r r' : Text}
    (h : hexField name v ++ r = hexField name v' ++ r') : v = v' ∧ r = r' := by
  obtain ⟨hvalue, hrest⟩ := field_append_inj h
  exact ⟨hexEncode_injective hvalue, hrest⟩

theorem flatMap_field_injective {name : Text} {l l' : List Text}
    (h : l.flatMap (field name) = l'.flatMap (field name)) : l = l' := by
  have hne : ∀ v, field name v ≠ [] := fun v hnil => by
    simp [field] at hnil
  induction l generalizing l' with
  | nil =>
    cases l' with
    | nil => rfl
    | cons v' l' =>
      exact absurd (append_eq_nil_iff.mp h.symm).1 (hne v')
  | cons v l ih =>
    cases l' with
    | nil =>
      rw [flatMap_nil, flatMap_cons] at h
      exact absurd (append_eq_nil_iff.mp h).1 (hne v)
    | cons v' l' =>
      obtain ⟨rfl, hrest⟩ := field_append_inj h
      rw [ih hrest]

/-! ### Keys -/

def formatBool (b : Bool) : Text := if b then ascii "true" else ascii "false"

/-- `cacheProfileBytes`. -/
def cacheProfileBytes (parse : ParseConfig) : Text :=
  field (ascii "leeway") (formatInt parse.leeway) ++
    (field (ascii "issuer") parse.expectedIssuer ++
      (field (ascii "subject") parse.expectedSubject ++
        (field (ascii "exp") (formatBool parse.expirationRequired) ++
          parse.expectedAudience.flatMap (field (ascii "aud")))))

/-- What a key depends on besides the token and the options: `keyPrefix` and `trustScope` of the
cache and the algorithm of the provider. -/
structure CacheScope where
  keyPrefix : Text
  trustScope : Text
  algorithm : Text

/-- The key of `buildCacheProfile`. -/
def cacheKey (sha256 : Text → Text) (scope : CacheScope) (parse : ParseConfig) (token : Text) :
    Text :=
  field (ascii "prefix") scope.keyPrefix ++
    (field (ascii "scope") scope.trustScope ++
      (field (ascii "alg") scope.algorithm ++
        (hexField (ascii "token") (sha256 token) ++
          (hexField (ascii "profile") (sha256 (cacheProfileBytes parse)) ++ []))))

/-- `buildCacheProfile`: no key if the parse is not to be cached. -/
def buildCacheProfile (sha256 : Text → Text) (scope : CacheScope) (parse : ParseConfig)
    (token : Text) : Option Text :=
  if parse.customClock then none else some (cacheKey sha256 scope parse token)

theorem formatBool_injective {a b : Bool} (h : formatBool a = formatBool b) : a = b := by
  cases a with
  | false =>
    cases b with
    | false => rfl
    | true => exact nomatch h
  | true =>
    cases b with
    | false => exact nomatch h
    | true => rfl

theorem cacheProfileBytes_injective {a b : ParseConfig} (hclock : a.customClock = b.customClock)
    (h : cacheProfileBytes a = cacheProfileBytes b) : a = b := by
  obtain ⟨hleeway, h⟩ := field_append_inj h
  obtain ⟨hissuer, h⟩ := field_append_inj h
  obtain ⟨hsubject, h⟩ := field_append_inj h
  obtain ⟨hexp, h⟩ := field_append_inj h
  have haudience := flatMap_field_injective h
  cases a
  cases b
  obtain rfl := formatInt_injective hleeway
  obtain rfl := formatBool_injective hexp
  cases hclock
  cases hissuer
  cases hsubject
  cases haudience
  rfl

/-- **Two parses with one key have one token and one set of options.** -/
theorem cacheKey_injective {sha256 : Text → Text} (hsha : ∀ a b, sha256 a = sha256 b → a = b)
    {scope : CacheScope} {a b : ParseConfig} {token token' : Text}
    (ha : a.customClock = false) (hb : b.customClock = false)
    (h : cacheKey sha256 scope a token = cacheKey sha256 scope b token') :
    a = b ∧ token = token' := by
  obtain ⟨-, h⟩ := field_append_inj h
  obtain ⟨-, h⟩ := field_append_inj h
  obtain ⟨-, h⟩ := field_append_inj h
  obtain ⟨htoken, h⟩ := hexField_append_inj h
  obtain ⟨hprofile, -⟩ := hexField_append_inj h
  exact ⟨cacheProfileBytes_injective (ha.trans hb.symm) (hsha _ _ hprofile), hsha _ _ htoken⟩

end Bluetape.Jwt
