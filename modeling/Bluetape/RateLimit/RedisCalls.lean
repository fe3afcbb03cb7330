import Bluetape.GoString
import Bluetape.RateLimit.Redis

/-!
# What the Redis limiter hands to Redis

Options that `normalize` accepts, and requests that `Allow` accepts, become the arguments and the
key of the script. Two things are expected of them.

* **The arguments are positive**, or the script refuses them. The idle time is checked in
  nanoseconds and handed over in whole milliseconds, so below a millisecond it becomes zero, and
  every call fails (`script_accepts_iff`).
* **Tenants have buckets of their own.** The key is the namespace and the caller's key with
  `:bucket:` between them, and both may hold that text themselves. Two namespaces are kept apart
  unless one, with the separator behind it, begins the other (`tenants_isolated_iff`).

Namespaces and keys are the bytes of Go strings here.
-/

namespace Bluetape.RateLimit.Redis

open Go List

/-! ### Arguments -/

/-- Of accepted options, the burst is the one given, and so is the idle time if there is one. -/
theorem normalize_spec {o : Options} {n : Normalized} (h : o.normalize = .ok n) :
    n.burst = o.burst ∧ 0 ≤ o.idleTTL ∧ (o.idleTTL ≠ 0 → n.idleTTL = o.idleTTL) ∧
      (o.idleTTL = 0 → minDefaultIdleTTL ≤ n.idleTTL) := by
  revert h
  fun_cases Options.normalize o <;> intro h <;> try cases h
  next hneg _ _ _ _ _ =>
    refine ⟨rfl, not_lt.mp hneg, fun hne => if_neg hne, fun hzero => ?_⟩
    exact (le_max_left _ _).trans_eq (if_pos hzero).symm

/-- **The script accepts its arguments if the idle time is left out or a millisecond at least.** The
other arguments are positive in any case. -/
theorem script_accepts_iff {o : Options} {n : Normalized} (hn : o.normalize = .ok n)
    {tokens requested : ℤ} (hreq : checkRequest n tokens = .ok requested) (x : Expiry)
    (bucket : Option Bucket) (now : ℤ) :
    (0 < requested ∧ 0 < n.burstMicros ∧ 0 < n.rateMicrosPerSecond ∧ 0 < tokenScale) ∧
    (0 < n.ttl ↔ o.idleTTL = 0 ∨ millisecond ≤ o.idleTTL) ∧
    (consume n x bucket requested now ≠ .error "invalid token bucket arguments" ↔
      o.idleTTL = 0 ∨ millisecond ≤ o.idleTTL) := by
  obtain ⟨-, hnonneg, hgiven, hdefault⟩ := normalize_spec hn
  obtain ⟨hpos, -⟩ := checkRequest_bounds hreq
  have hburst := n.burstMicros_pos
  have hrate := n.rate_pos
  have httl : 0 < n.ttl ↔ o.idleTTL = 0 ∨ millisecond ≤ o.idleTTL := by
    by_cases hzero : o.idleTTL = 0
    · have hminute : minute ≤ n.idleTTL := hdefault hzero
      unfold minute at hminute
      rw [Normalized.ttl, millisecond, Int.tdiv_eq_ediv_of_nonneg (by omega)]
      omega
    · rw [Normalized.ttl, millisecond, hgiven hzero, Int.tdiv_eq_ediv_of_nonneg hnonneg]
      omega
  refine ⟨⟨hpos, hburst, hrate, by decide⟩, httl, ?_⟩
  rw [← httl, consume, consumeScript]
  split_ifs with hargs <;> rw [invalid_iff] at hargs
  · refine iff_of_false (fun hne => hne rfl) ?_
    omega
  · refine iff_of_true (by rintro ⟨⟩) ?_
    omega

theorem exists_normalized {o : Options} (hok : o.normalize.isOk = true) (hburst : o.burst = 1) :
    ∃ n, o.normalize = .ok n ∧ checkRequest n 1 = .ok 1000000 := by
  cases hn : o.normalize with
  | error e =>
    rw [hn] at hok
    exact nomatch hok
  | ok n =>
    refine ⟨n, rfl, ?_⟩
    rw [checkRequest, (normalize_spec hn).1, hburst]
    decide

theorem script_accepts_default : ∃ n, (Options.mk true "" (.finite 10) 1 0 0).normalize = .ok n ∧
    consume n .atDeadline none 1000000 0 ≠ .error "invalid token bucket arguments" := by
  obtain ⟨n, hn, hreq⟩ := exists_normalized (o := ⟨true, "", .finite 10, 1, 0, 0⟩)
    (by decide +kernel) rfl
  exact ⟨n, hn, (script_accepts_iff hn hreq .atDeadline none 0).2.2.mpr (.inl rfl)⟩

/-- **Half a millisecond of idle time**, for a million tokens a second: the refill takes a
microsecond, so the options are accepted, and the script gets a time to live of zero. -/
theorem script_refuses_brief :
    ∃ n, (Options.mk true "" (.finite 1000000) 1 500000 0).normalize = .ok n ∧
      checkRequest n 1 = .ok 1000000 ∧ n.ttl = 0 ∧
      consume n .atDeadline none 1000000 0 = .error "invalid token bucket arguments" := by
  obtain ⟨n, hn, hreq⟩ := exists_normalized (o := ⟨true, "", .finite 1000000, 1, 500000, 0⟩)
    (by decide +kernel) rfl
  have httl : n.ttl = 0 := by
    rw [Normalized.ttl, (normalize_spec hn).2.2.1 (by decide)]
    decide
  refine ⟨n, hn, hreq, httl, ?_⟩
  rw [consume, consumeScript, httl]
  exact if_pos (.inr (.inr (.inr le_rfl)))

/-! ### Keys -/

section Tenants

open GoString (Text ascii)

/-- What `normalize` makes of a namespace. -/
def normalizeNamespace (raw : Text) : Except String Text :=
  let ns := if raw = [] then ascii "default" else GoString.trimSpace raw
  if ns = [] then .error "namespace must not be blank" else .ok ns

def normalizeKey (maxKeyBytes : ℕ) (key : Text) : Except String Text :=
  if GoString.trimSpace key = [] then .error "key must not be empty"
  else if maxKeyBytes < key.length then .error "key exceeds max key bytes"
  else .ok key

def separator : Text := ascii ":bucket:"

def bucketKey (ns key : Text) : Text :=
  ascii "bluetape:ratelimit" ++ ascii ":" ++ ns ++ separator ++ key

/-- A namespace, with the separator, **begins** another, and what is missing fits into its keys. -/
def Begins (ns ns' : Text) (maxKeyBytes : ℕ) : Prop :=
  ns ++ separator <+: ns' ++ separator ∧ ns'.length - ns.length < maxKeyBytes

variable {ns ns' key key' rest : Text}

theorem bucketKey_eq_iff : bucketKey ns key = bucketKey ns' key' ↔
    ns ++ separator ++ key = ns' ++ separator ++ key' := by
  rw [bucketKey, bucketKey]
  simp only [append_assoc, append_cancel_left_eq]

/-- **Buckets are shared if the keys make up for the namespaces.** -/
theorem bucketKey_eq_of_begins (h : ns ++ separator ++ rest = ns' ++ separator) (key : Text) :
    bucketKey ns (rest ++ key) = bucketKey ns' key := by
  rw [bucketKey_eq_iff, ← h, append_assoc _ rest]

variable {maxKeyBytes : ℕ}

theorem begins_of_bucketKey_eq (h : bucketKey ns key = bucketKey ns' key')
    (hlt : ns.length < ns'.length) (hkey : key.length ≤ maxKeyBytes) (hkey' : key' ≠ []) :
    Begins ns ns' maxKeyBytes := by
  rw [bucketKey_eq_iff] at h
  have hlen := congrArg List.length h
  simp only [length_append] at hlen
  refine ⟨?_, ?_⟩
  · refine prefix_of_prefix_length_le (prefix_append _ key) (h ▸ prefix_append _ _) ?_
    rw [length_append, length_append]
    omega
  · have := length_pos_iff.mpr hkey'
    omega

theorem normalizeKey_eq_ok (h : normalizeKey maxKeyBytes key = .ok key') :
    key ≠ [] ∧ key.length ≤ maxKeyBytes := by
  unfold normalizeKey at h
  split_ifs at h with hblank hlong
  refine ⟨?_, not_lt.mp hlong⟩
  rintro rfl
  exact hblank (by decide)

theorem normalizeKey_concat (rest : Text) (h : rest.length < maxKeyBytes) :
    normalizeKey maxKeyBytes (rest ++ ascii "x") = .ok (rest ++ ascii "x") := by
  have hmem : (0x78 : UInt8) ∈ GoString.trimSpace (rest ++ ascii "x") :=
    GoString.mem_trimSpace (by decide) (mem_append_right rest mem_cons_self)
  have hlen : (rest ++ ascii "x").length = rest.length + 1 := length_append
  rw [normalizeKey, if_neg (ne_nil_of_mem hmem), if_neg (by omega)]

/-- A call of `Allow` that has passed its checks: the limiter and its namespace, what is asked for
in millionths, and the time of the script in milliseconds. -/
structure Call where
  limiter : Normalized
  ns : Text
  key : Text
  requested : ℤ
  now : ℤ

/-- What its script does to the buckets on the server. -/
def Call.exec (x : Expiry) (store : Text → Option Bucket) (c : Call) : Text → Option Bucket :=
  match consume c.limiter x (store (bucketKey c.ns c.key)) c.requested c.now with
  | .error _ => store
  | .ok (bucket, _) => Function.update store (bucketKey c.ns c.key) (some bucket)

theorem exec_of_ne {x : Expiry} {store : Text → Option Bucket} {c : Call}
    (h : bucketKey ns key ≠ bucketKey c.ns c.key) :
    c.exec x store (bucketKey ns key) = store (bucketKey ns key) := by
  fun_cases Call.exec x store c
  · rfl
  · exact Function.update_of_ne h _ _

/-- **Where namespaces are kept apart.** Two namespaces share no bucket, whatever keys `Allow`
accepts, if they are the same or neither begins the other; and then no traffic in the one changes a
bucket of the other. -/
theorem tenants_isolated_iff (ns ns' : Text) {maxKeyBytes maxKeyBytes' : ℕ}
    (hmax : 0 < maxKeyBytes) (hmax' : 0 < maxKeyBytes') :
    ((∀ key key', normalizeKey maxKeyBytes key = .ok key →
        normalizeKey maxKeyBytes' key' = .ok key' → bucketKey ns key = bucketKey ns' key' →
        ns = ns' ∧ key = key') ↔
      ns = ns' ∨ (¬Begins ns ns' maxKeyBytes ∧ ¬Begins ns' ns maxKeyBytes')) ∧
    (ns ≠ ns' → ¬Begins ns ns' maxKeyBytes → ¬Begins ns' ns maxKeyBytes' →
      ∀ (x : Expiry) (store : Text → Option Bucket) (traffic : List Call) (key : Text),
        (∀ c ∈ traffic, c.ns = ns' ∧ normalizeKey maxKeyBytes' c.key = .ok c.key) →
        normalizeKey maxKeyBytes key = .ok key →
        traffic.foldl (fun store c => c.exec x store) store (bucketKey ns key) =
          store (bucketKey ns key)) := by
  have happart : ¬Begins ns ns' maxKeyBytes → ¬Begins ns' ns maxKeyBytes' → ∀ key key',
      normalizeKey maxKeyBytes key = .ok key → normalizeKey maxKeyBytes' key' = .ok key' →
      bucketKey ns key = bucketKey ns' key' → ns = ns' ∧ key = key' := by
    intro hno hno' key key' hkey hkey' heq
    obtain ⟨hne, hle⟩ := normalizeKey_eq_ok hkey
    obtain ⟨hne', hle'⟩ := normalizeKey_eq_ok hkey'
    rcases lt_trichotomy ns.length ns'.length with hlt | hlen | hlt
    · exact absurd (begins_of_bucketKey_eq heq hlt hle hne') hno
    · rw [bucketKey_eq_iff, append_assoc, append_assoc] at heq
      obtain ⟨hns, hrest⟩ := append_inj heq hlen
      exact ⟨hns, append_cancel_left hrest⟩
    · exact absurd (begins_of_bucketKey_eq heq.symm hlt hle' hne) hno'
  have hshared : ∀ {a b : Text} {m m' : ℕ}, a ≠ b → 0 < m' → Begins a b m → ∃ key key',
      normalizeKey m key = .ok key ∧ normalizeKey m' key' = .ok key' ∧
        bucketKey a key = bucketKey b key' := by
    rintro a b m m' hne hm' ⟨⟨rest, hrest⟩, hlt⟩
    have hlen := congrArg List.length hrest
    simp only [length_append] at hlen
    exact ⟨rest ++ ascii "x", ascii "x", normalizeKey_concat rest (by omega),
      normalizeKey_concat [] hm', bucketKey_eq_of_begins hrest _⟩
  refine ⟨⟨fun h => ?_, ?_⟩, ?_⟩
  · by_contra hcon
    obtain ⟨hne, hbegins⟩ := not_or.mp hcon
    rcases not_and_or.mp hbegins with hb | hb
    · obtain ⟨key, key', hkey, hkey', heq⟩ := hshared hne hmax' (not_not.mp hb)
      exact hne (h key key' hkey hkey' heq).1
    · obtain ⟨key', key, hkey', hkey, heq⟩ := hshared (Ne.symm hne) hmax (not_not.mp hb)
      exact hne (h key key' hkey hkey' heq.symm).1
  · rintro (rfl | ⟨hno, hno'⟩) key key' hkey hkey' heq
    · exact ⟨rfl, append_cancel_left (bucketKey_eq_iff.mp heq)⟩
    · exact happart hno hno' key key' hkey hkey' heq
  · intro hne hno hno' x store traffic key htraffic hkey
    -- one call after the other leaves the bucket alone
    induction traffic generalizing store with
    | nil => rfl
    | cons c traffic ih =>
      obtain ⟨hns, hkey'⟩ := htraffic c mem_cons_self
      refine (ih _ fun d hd => htraffic d (mem_cons_of_mem c hd)).trans (exec_of_ne ?_)
      rw [hns]
      exact fun heq => hne (happart hno hno' key c.key hkey hkey' heq).1

theorem tenants_isolated_plain : ascii "a" ≠ ascii "b" ∧ ∀ key key',
    normalizeKey 512 key = .ok key → normalizeKey 512 key' = .ok key' →
    bucketKey (ascii "a") key = bucketKey (ascii "b") key' →
    ascii "a" = ascii "b" ∧ key = key' := by
  refine ⟨by decide, ?_⟩
  refine (tenants_isolated_iff (ascii "a") (ascii "b") (by decide) (by decide)).1.mpr
    (.inr ⟨?_, ?_⟩)
  · exact fun h => nomatch h.1
  · exact fun h => nomatch h.1

/-- **Two tenants with one bucket.** -/
theorem tenants_share_bucket :
    normalizeNamespace (ascii "a") = .ok (ascii "a") ∧
    normalizeNamespace (ascii "a:bucket:b") = .ok (ascii "a:bucket:b") ∧
    normalizeKey 512 (ascii "b:bucket:c") = .ok (ascii "b:bucket:c") ∧
    normalizeKey 512 (ascii "c") = .ok (ascii "c") ∧
    bucketKey (ascii "a") (ascii "b:bucket:c") = bucketKey (ascii "a:bucket:b") (ascii "c") := by
  decide +kernel

end Tenants

end Bluetape.RateLimit.Redis
