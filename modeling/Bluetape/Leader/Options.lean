import Bluetape.Go
import Mathlib.Data.List.Basic

/-!
# The options of an elector

`leader.Options` and its check, `Normalize`, which every elector goes through, and
`leader.GroupOptions` over it. The check is about names – the group, the member and the
key prefix must not contain what would break a key – and fills in what is missing: a lease
or an interval that is not positive becomes its default. It does not compare the two.

A value that came out of `Normalize` is `Accepted`: its lease and its interval are positive
(`Options.normalize_eq_ok`). For groups it is `AcceptedGroup`.
-/

namespace Bluetape.Leader

open Go

/-- `leader.Options`. -/
structure Options where
  group : String
  memberID : String
  lease : ℤ
  renewInterval : ℤ
  keyPrefix : String
  deriving DecidableEq, Repr

/-- Ten seconds. -/
def defaultLease : ℤ := 10 * second

/-- Three seconds. -/
def defaultRenewInterval : ℤ := 3 * second

/-- For the keys of single electors. -/
def defaultKeyPrefix : String := "bluetape:leader"

/-- `core.RequireNotBlank`. -/
def requireNotBlank (name value : String) : Except String Unit :=
  if trimSpace value = "" then
    .error ("core: invalid argument: " ++ name ++ " must not be blank")
  else .ok ()

/-- `unicode.IsControl`. -/
def isControl (c : Char) : Bool :=
  decide (c.toNat ≤ 0x1F) || (decide (0x7F ≤ c.toNat) && decide (c.toNat ≤ 0x9F))

/-- Is there a control character? -/
def containsControl (value : String) : Bool := value.toList.any isControl

/-- A colon or a brace: the characters of `":\x7b\x7d"`. -/
def isStructural (c : Char) : Bool := [0x3A, 0x7B, 0x7D].contains c.toNat

/-- An opening or closing brace. -/
def isBrace (c : Char) : Bool := [0x7B, 0x7D].contains c.toNat

/-- What a group and a member may be. -/
def validateIdentityPart (name value : String) : Except String Unit :=
  if value ≠ trimSpace value then
    .error ("leader " ++ name ++ " must not have surrounding whitespace")
  else if 256 < value.utf8ByteSize then .error ("leader " ++ name ++ " exceeds 256 bytes")
  else if value.toList.any isStructural || containsControl value then
    .error ("leader " ++ name ++ " has unsafe structure")
  else .ok ()

/-- What a prefix may be. -/
def validateKeyPrefix (value : String) : Except String Unit :=
  if value ≠ trimSpace value ∨ containsControl value then
    .error "leader key prefix has unsafe structure"
  else if (value.toList.splitOn ':').any fun segment => segment.isEmpty || segment.any isBrace then
    .error "leader key prefix has unsafe segment"
  else .ok ()

/-- The first check that fails. -/
def firstError : List (Except String Unit) → Except String Unit
  | [] => .ok ()
  | .error e :: _ => .error e
  | .ok () :: rest => firstError rest

/-- The defaults that `Normalize` fills in. -/
def Options.withDefaults (o : Options) : Options :=
  { o with
    lease := if o.lease ≤ 0 then defaultLease else o.lease
    renewInterval := if o.renewInterval ≤ 0 then defaultRenewInterval else o.renewInterval
    keyPrefix := if o.keyPrefix = "" then defaultKeyPrefix else o.keyPrefix }

/-- **`Normalize`.** -/
def Options.normalize (o : Options) : Except String Options :=
  match firstError [requireNotBlank "group" o.group, requireNotBlank "memberID" o.memberID,
    validateIdentityPart "group" o.group, validateIdentityPart "memberID" o.memberID,
    if o.keyPrefix = "" then .ok () else validateKeyPrefix o.keyPrefix] with
  | .error e => .error e
  | .ok () =>
    if 512 < o.withDefaults.keyPrefix.utf8ByteSize + 1 + o.group.utf8ByteSize then
      .error "leader key exceeds 512 bytes"
    else .ok o.withDefaults

/-- **What `Normalize` accepts it returns with its defaults.** -/
theorem Options.normalize_eq_ok {o n : Options} (h : o.normalize = .ok n) :
    n = o.withDefaults ∧ 0 < n.lease ∧ 0 < n.renewInterval := by
  unfold Options.normalize at h
  split at h
  next => cases h
  next =>
    split_ifs at h
    cases h
    refine ⟨rfl, ?_, ?_⟩
    · simp only [Options.withDefaults]
      split_ifs with hlease
      · decide
      · exact not_le.mp hlease
    · simp only [Options.withDefaults]
      split_ifs with hrenew
      · decide
      · exact not_le.mp hrenew

/-- **Options that `Normalize` has accepted.** -/
structure Accepted where
  options : Options
  /-- They came out of `Normalize`. -/
  accepted : ∃ o : Options, o.normalize = .ok options

namespace Accepted

theorem lease_pos (o : Accepted) : 0 < o.options.lease := by
  obtain ⟨raw, h⟩ := o.accepted
  exact (Options.normalize_eq_ok h).2.1

theorem renewInterval_pos (o : Accepted) : 0 < o.options.renewInterval := by
  obtain ⟨raw, h⟩ := o.accepted
  exact (Options.normalize_eq_ok h).2.2

/-- The key in Redis. -/
def key (o : Accepted) : String := o.options.keyPrefix ++ ":" ++ o.options.group

/-- `Lease / time.Millisecond`, the lease as the scripts get it. -/
def leaseMillis (o : Accepted) : ℤ := o.options.lease / millisecond

theorem leaseMillis_nonneg (o : Accepted) : 0 ≤ o.leaseMillis :=
  Int.ediv_nonneg o.lease_pos.le (by decide)

end Accepted

/-! ### Groups -/

/-- `leader.GroupOptions`. -/
structure GroupOptions where
  /-- The embedded `Options`. -/
  options : Options
  maxLeaders : ℤ
  deriving DecidableEq, Repr

/-- For the keys of groups. -/
def defaultGroupKeyPrefix : String := "bluetape:leader-group"

/-- `core.RequirePositive`, for an integer. -/
def requirePositive (name : String) (value : ℤ) : Except String Unit :=
  if value ≤ 0 then
    .error ("core: invalid argument: " ++ name ++ "[" ++ toString value ++ "] must be positive")
  else .ok ()

/-- **`Normalize` of group options.** -/
def GroupOptions.normalize (o : GroupOptions) : Except String GroupOptions :=
  let keyPrefix :=
    if o.options.keyPrefix = "" then defaultGroupKeyPrefix else o.options.keyPrefix
  match ({ o.options with keyPrefix := keyPrefix } : Options).normalize with
  | .error e => .error e
  | .ok options =>
    match requirePositive "maxLeaders" o.maxLeaders with
    | .error e => .error e
    | .ok () => .ok ⟨options, o.maxLeaders⟩

/-- **What `GroupOptions.Normalize` accepts.** -/
theorem GroupOptions.normalize_eq_ok {o n : GroupOptions} (h : o.normalize = .ok n) :
    0 < n.options.lease ∧ 0 < n.maxLeaders ∧ n.maxLeaders = o.maxLeaders := by
  revert h
  fun_cases GroupOptions.normalize o <;> rintro ⟨⟩
  next options hoptions hpos =>
    refine ⟨(Options.normalize_eq_ok hoptions).2.1, ?_, rfl⟩
    unfold requirePositive at hpos
    split_ifs at hpos with hle
    exact not_le.mp hle

/-- **Group options that `Normalize` has accepted.** -/
structure AcceptedGroup where
  options : GroupOptions
  /-- They came out of `Normalize`. -/
  accepted : ∃ o : GroupOptions, o.normalize = .ok options

namespace AcceptedGroup

/-- The key of the sorted set. -/
def key (o : AcceptedGroup) : String :=
  o.options.options.keyPrefix ++ ":" ++ o.options.options.group

/-- `ttlMillis`: the lease as the scripts get it. -/
def ttlMillis (o : AcceptedGroup) : ℤ := o.options.options.lease / millisecond

theorem ttlMillis_nonneg (o : AcceptedGroup) : 0 ≤ o.ttlMillis := by
  obtain ⟨raw, h⟩ := o.accepted
  exact Int.ediv_nonneg (GroupOptions.normalize_eq_ok h).1.le (by decide)

end AcceptedGroup

end Bluetape.Leader
