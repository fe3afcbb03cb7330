import Mathlib.Algebra.BigOperators.Group.List.Basic
import Bluetape.Dynamodb.BatchWrite

/-!
# Where every item is

The client has accepted, of each request, what it did not return as unprocessed (`Call.accepted`).
Two things hold of all calls, whatever the client and the context do (`Sound`): a request has
between 1 and 25 items, and with what has been accepted before they are part of the input, so that
nothing accepted is submitted again.

What `WriteAll` says about the items is right only in part:

* `Processed` is counted up when a chunk is finished, or its attempts are used up. If a call or
  the context ends it in between, what the earlier attempts for the chunk have written is not
  counted.
* The error for unprocessed items lists those of one chunk. The chunks after it, which have never
  been submitted, are not listed.

`items_not_accounted` has an example of each. Apart from these two cases every item is accounted
for, and in these it is not (`items_accounted_iff`). Which case it is depends on the replies of the
client, on the context and on the budget only: what they make of the attempts for a chunk is its
`Ending`, and no chunk may be left half written or be given up before the last (`Complete`).
-/

namespace Bluetape.Dynamodb

open List

variable {T I C M E : Type} [LinearOrder T] [DecidableEq I]

/-! ### What has been accepted -/

namespace Call

def rejected (c : Call T I C M E) : Multiset (T × I) :=
  match c.response with
  | .failed _ => c.request.content
  | .done out => (Response.unprocessed out).content

def accepted (c : Call T I C M E) : Multiset (T × I) := c.request.content - c.rejected

def Of (client : Client T I C M E) (c : Call T I C M E) : Prop :=
  ∃ n, c.response = client.respond n c.request

theorem accepted_add_rejected {client : Client T I C M E} {c : Call T I C M E}
    (h : c.Of client) : c.accepted + c.rejected = c.request.content := by
  refine Multiset.sub_add_cancel ?_
  obtain ⟨n, hn⟩ := h
  unfold rejected
  split
  · exact le_rfl
  · rename_i out hout
    exact client.part n c.request out (hn.symm.trans hout)

end Call

def accepted (calls : List (Call T I C M E)) : Multiset (T × I) := (calls.map Call.accepted).sum

@[simp] theorem accepted_nil : accepted ([] : List (Call T I C M E)) = 0 := rfl

theorem accepted_append (calls calls' : List (Call T I C M E)) :
    accepted (calls ++ calls') = accepted calls + accepted calls' := by
  rw [accepted, map_append, sum_append]
  rfl

theorem accepted_singleton (c : Call T I C M E) : accepted [c] = c.accepted := by
  rw [accepted, map_singleton, sum_singleton]

/-- **The calls are sound**: a request has between 1 and 25 items, and none of them has been
accepted before. -/
def Sound (input : Multiset (T × I)) (calls : List (Call T I C M E)) : Prop :=
  ∀ before c after, calls = before ++ c :: after →
    1 ≤ c.request.count ∧ c.request.count ≤ maxItemsPerBatch ∧
      accepted before + c.request.content ≤ input

theorem Sound.snoc {input : Multiset (T × I)} {calls : List (Call T I C M E)}
    (h : Sound input calls) {c : Call T I C M E} (hpos : 1 ≤ c.request.count)
    (hle : c.request.count ≤ maxItemsPerBatch)
    (hsub : accepted calls + c.request.content ≤ input) : Sound input (calls ++ [c]) := by
  intro before c' after heq
  rcases eq_nil_or_concat after with rfl | ⟨after', x, rfl⟩
  · obtain ⟨rfl, hc⟩ := append_inj' heq rfl
    obtain rfl := (List.cons.inj hc).1
    exact ⟨hpos, hle, hsub⟩
  · rw [concat_eq_append, ← cons_append, ← append_assoc] at heq
    exact h before c' after' (append_inj' heq rfl).1

/-! ### The attempts for a chunk -/

/-- **Within a chunk**: of its items some have been accepted in the calls for it, and the others
are pending; what is counted as processed are the items of the chunks before. -/
structure Within (input whole : Multiset (T × I)) (old : List (Call T I C M E)) (chunk : ℕ)
    (s : State T I C M E) (pending : Multiset (T × I)) : Prop where
  calls : ∃ mine, s.calls = old ++ mine ∧ (∀ c ∈ mine, c.chunk = chunk) ∧
    accepted mine + pending = whole
  processed : s.result.processed = (accepted old).card
  sound : Sound input s.calls
  fits : accepted old + whole ≤ input

/-- **How the attempts for a chunk end**: it is written, after so many calls and looks at the
context; they are ended by the context or by a failure, with so many items pending; or the budget
is used up. -/
inductive Ending where
  | written (calls looks : ℕ)
  | aborted (pending : ℕ)
  | exhausted

/-- How the attempts end, by the replies of the client, the context and the budget of `n` more
attempts. -/
def ending (client : Client T I C M E) (ctx : Context) : ℕ → ℕ → ℕ → TableMap T I → Ending
  | 0, calls, looks, _ => .written calls looks
  | n + 1, calls, looks, pending =>
    match ctx looks, client.respond calls pending with
    | some _, _ | none, .failed _ => .aborted pending.count
    | none, .done out =>
      if (Response.unprocessed out).count = 0 then .written (calls + 1) (looks + 1)
      else if n = 0 then .exhausted
      else if (ctx (looks + 1)).isSome then .aborted (Response.unprocessed out).count
      else ending client ctx n (calls + 1) (looks + 2) (Response.unprocessed out)

/-- **No chunk is left half written, and none is left out**: the attempts for a chunk are ended by
the context or by a failure only if none of its items has been accepted, and the budget is used up
for the last chunk only. -/
def Complete (client : Client T I C M E) (ctx : Context) (budget : ℕ) :
    List (List (T × I)) → ℕ → ℕ → Prop
  | [], _, _ => True
  | chunk :: rest, calls, looks =>
    match ending client ctx budget calls looks (itemsToRequestMap chunk) with
    | .written calls looks => Complete client ctx budget rest calls looks
    | .aborted pending => pending = chunk.length
    | .exhausted => rest = []

/-- `UnprocessedItemsError`. -/
def Error.isUnprocessed : Error T I E → Bool
  | .unprocessed _ _ => true
  | _ => false

/-- What is known when the attempts for a chunk have ended. -/
def AfterChunk (input whole : Multiset (T × I)) (old : List (Call T I C M E)) (chunk : ℕ)
    (s : State T I C M E) (err : Option (Error T I E)) : Ending → Prop
  | .written calls looks =>
    err = none ∧ s.calls.length = calls ∧ s.looks = looks ∧
      accepted s.calls = accepted old + whole ∧
      s.result.processed = (accepted s.calls).card ∧ Sound input s.calls
  | .aborted left =>
    (∃ e, err = some e ∧ e.isUnprocessed = false) ∧
      ∃ pending, Within input whole old chunk s pending ∧ pending.card = left
  | .exhausted =>
    ∃ attempts items, err = some (.unprocessed attempts items) ∧
      accepted s.calls + items.content = accepted old + whole ∧
      s.result.processed = (accepted s.calls).card ∧ Sound input s.calls

section

variable {input whole : Multiset (T × I)}
  {old : List (Call T I C M E)} {chunk : ℕ} {s : State T I C M E}

variable {pending : Multiset (T × I)}

section

variable (h : Within input whole old chunk s pending)
include h

theorem Within.look : Within input whole old chunk s.look pending :=
  ⟨h.calls, h.processed, h.sound, h.fits⟩

theorem Within.merge (out : Option (Output T I C M)) :
    Within input whole old chunk (s.merge out) pending :=
  ⟨h.calls, by
    change (s.result.merge out).processed = _
    rw [Result.processed_merge]
    exact h.processed, h.sound, h.fits⟩

theorem Within.accepted_add : accepted s.calls + pending = accepted old + whole := by
  obtain ⟨mine, hcalls, -, hwhole⟩ := h.calls
  rw [hcalls, accepted_append, add_assoc, hwhole]

end

/-- **A call**: what it accepts is pending no more. -/
theorem Within.call (client : Client T I C M E) {request : TableMap T I}
    {response : Response T I C M E} (h : Within input whole old chunk s request.content)
    (hresponse : ∃ n, response = client.respond n request) (hpos : 1 ≤ request.count)
    (hle : request.count ≤ maxItemsPerBatch) :
    Within input whole old chunk (s.called ⟨chunk, request, response⟩)
      (Call.rejected ⟨chunk, request, response⟩) := by
  have hsub : accepted s.calls + request.content ≤ input := by
    rw [h.accepted_add]
    exact h.fits
  obtain ⟨mine, hcalls, hmine, hwhole⟩ := h.calls
  refine ⟨⟨mine ++ [⟨chunk, request, response⟩], ?_, ?_, ?_⟩, h.processed,
    h.sound.snoc hpos hle hsub, h.fits⟩
  · change s.calls ++ _ = _
    rw [hcalls, append_assoc]
  · intro c hc
    rcases mem_append.mp hc with hc | hc
    · exact hmine c hc
    · rw [mem_singleton.mp hc]
  · have hsplit := Call.accepted_add_rejected (c := ⟨chunk, request, response⟩) hresponse
    rw [accepted_append, accepted_singleton, add_assoc, hsplit]
    exact hwhole

/-- **The attempts for a chunk** end as the replies say. -/
theorem attemptLoop_spec {client : Client T I C M E} {ctx : Context} {maxAttempts : ℤ} {n : ℕ}
    (hn : n ≠ 0) {pending : TableMap T I}
    (h : Within input whole old chunk s pending.content) (hpos : 1 ≤ pending.count)
    (hle : pending.count ≤ maxItemsPerBatch) {err : Option (Error T I E)} {s' : State T I C M E}
    (hloop : attemptLoop client ctx maxAttempts chunk whole.card n pending s = (err, s')) :
    AfterChunk input whole old chunk s' err
      (ending client ctx n s.calls.length s.looks pending) := by
  induction n generalizing pending s with
  | zero => exact absurd rfl hn
  | succ n ih =>
    rw [attemptLoop] at hloop
    rw [ending]
    dsimp only at hloop
    split at hloop
    · next hctx =>
      cases hloop
      simp only [hctx]
      exact ⟨⟨_, rfl, rfl⟩, _, h.look, TableMap.card_content _⟩
    · next hctx =>
      have hcall := h.look.call client ⟨s.calls.length, rfl⟩ hpos hle
      split at hloop
      · next hfailed =>
        cases hloop
        rw [hfailed] at hcall
        simp only [hctx, hfailed]
        exact ⟨⟨_, rfl, rfl⟩, _, hcall, TableMap.card_content _⟩
      · next out hout =>
        have hmerge := hcall.merge out
        have hrejected : Call.rejected ⟨chunk, pending, client.respond s.calls.length pending⟩ =
            (Response.unprocessed out).content := by
          rw [Call.rejected, hout]
        rw [hrejected] at hmerge
        have hlen : ((s.look.called ⟨chunk, pending, client.respond s.calls.length pending⟩).merge
            out).calls.length = s.calls.length + 1 := length_append
        have hlooks : ((s.look.called ⟨chunk, pending, client.respond s.calls.length
            pending⟩).merge out).looks = s.looks + 1 := rfl
        generalize (s.look.called ⟨chunk, pending, _⟩).merge out = s₁ at hmerge hloop hlen hlooks
        have hadd := hmerge.accepted_add
        have hcard := congrArg Multiset.card hadd
        rw [Multiset.card_add, Multiset.card_add, TableMap.card_content] at hcard
        have hprocessed := hmerge.processed
        simp only [hctx, hout]
        split_ifs at hloop with hzero hlast
        · cases hloop
          have hnone : (Response.unprocessed out).content = 0 := by
            rw [← Multiset.card_eq_zero, TableMap.card_content, hzero]
          rw [hnone, add_zero] at hadd
          rw [if_pos hzero]
          refine ⟨rfl, hlen, hlooks, hadd, ?_, hmerge.sound⟩
          rw [State.processed_addProcessed, State.calls_addProcessed]
          omega
        · cases hloop
          rw [if_neg hzero, if_pos (by omega)]
          refine ⟨_, _, rfl, hadd, ?_, hmerge.sound⟩
          rw [State.processed_addProcessed, State.calls_addProcessed]
          omega
        · rw [if_neg hzero, if_neg (by omega), ← hlooks]
          split at hloop
          · next hctx' =>
            cases hloop
            rw [if_pos (by rw [hctx']; rfl)]
            exact ⟨⟨_, rfl, rfl⟩, _, hmerge.look, TableMap.card_content _⟩
          · next hctx' =>
            have hpart := Multiset.card_le_card
              (client.part s.calls.length pending out hout)
            rw [TableMap.card_content, TableMap.card_content] at hpart
            rw [if_neg (by rw [hctx']; exact Bool.false_ne_true)]
            have hnext := ih (by omega) hmerge.look (by omega) (by omega) hloop
            rw [← hlen, show s.looks + 2 = s₁.looks + 1 by omega]
            exact hnext

/-! ### All chunks -/

/-- What `WriteAll` says about the items: what has been accepted has been counted, and if the
attempts for a chunk are used up, what has not been accepted is listed. -/
def Accounted (input : Multiset (T × I)) (err : Option (Error T I E)) (processed : ℤ)
    (calls : List (Call T I C M E)) : Prop :=
  processed = (accepted calls).card ∧ ∀ attempts items, err = some (.unprocessed attempts items) →
    accepted calls + items.content = input

/-- **The chunks one after the other.** -/
theorem chunkLoop_spec {client : Client T I C M E} {ctx : Context} {maxAttempts : ℤ}
    (hmax : 0 < maxAttempts) {chunks : List (List (T × I))}
    (hchunks : ∀ chunk ∈ chunks, 1 ≤ chunk.length ∧ chunk.length ≤ maxItemsPerBatch) {k : ℕ}
    (hprocessed : s.result.processed = (accepted s.calls).card) (hsound : Sound input s.calls)
    (hinput : accepted s.calls + (chunks.flatten : List (T × I)) = input)
    {err : Option (Error T I E)} {k' : ℕ} {s' : State T I C M E}
    (hloop : chunkLoop client ctx maxAttempts k chunks s = (err, k', s')) :
    Sound input s'.calls ∧ (err = none → accepted s'.calls = input) ∧
      (Accounted input err s'.result.processed s'.calls ↔
        Complete client ctx maxAttempts.toNat chunks s.calls.length s.looks) := by
  induction chunks generalizing k s with
  | nil =>
    cases hloop
    refine ⟨hsound, fun _ => ?_, iff_of_true ⟨hprocessed, nofun⟩ trivial⟩
    rw [← hinput]
    simp
  | cons chunk rest ih =>
    obtain ⟨hpos, hle⟩ := hchunks chunk mem_cons_self
    have hcontent := content_itemsToRequestMap chunk
    have hcount : (itemsToRequestMap chunk).count = chunk.length := by
      rw [← TableMap.card_content, hcontent, Multiset.coe_card]
    rw [flatten_cons, ← Multiset.coe_add, ← add_assoc] at hinput
    have hfits : accepted s.calls + (chunk : Multiset (T × I)) ≤ input := by
      rw [← hinput]
      exact Multiset.le_add_right _ _
    have hwithin : Within input chunk s.calls k s (itemsToRequestMap chunk).content :=
      ⟨⟨[], by simp, by simp, by rw [hcontent]; simp⟩, hprocessed, hsound, hfits⟩
    rw [chunkLoop] at hloop
    rw [Complete]
    rcases hattempts : attemptLoop client ctx maxAttempts k chunk.length maxAttempts.toNat
      (itemsToRequestMap chunk) s with ⟨err₁, s₁⟩
    have hspec := attemptLoop_spec (by omega) hwithin (by omega) (by omega) hattempts
    rw [hattempts] at hloop
    generalize ending client ctx maxAttempts.toNat s.calls.length s.looks
      (itemsToRequestMap chunk) = e at hspec ⊢
    cases e with
    | written calls looks =>
      obtain ⟨rfl, rfl, rfl, haccepted, hprocessed₁, hsound₁⟩ := hspec
      exact ih (fun c hc => hchunks c (mem_cons_of_mem _ hc)) hprocessed₁ hsound₁
        (by rw [haccepted]; exact hinput) hloop
    | aborted left =>
      obtain ⟨⟨e, rfl, hother⟩, pending, hin, rfl⟩ := hspec
      cases hloop
      refine ⟨hin.sound, nofun, ?_⟩
      have hcard := congrArg Multiset.card hin.accepted_add
      rw [Multiset.card_add, Multiset.card_add, Multiset.coe_card] at hcard
      have hcounted := hin.processed
      constructor
      · rintro ⟨hall, -⟩
        change pending.card = chunk.length
        omega
      · intro (hleft : pending.card = chunk.length)
        refine ⟨by omega, ?_⟩
        rintro attempts items ⟨⟩
        exact nomatch hother
    | exhausted =>
      obtain ⟨attempts, items, rfl, hadd, hprocessed₁, hsound₁⟩ := hspec
      cases hloop
      refine ⟨hsound₁, nofun, ?_⟩
      constructor
      · rintro ⟨-, hall⟩
        have hcard := congrArg Multiset.card ((hadd.symm.trans (hall _ _ rfl)).trans hinput.symm)
        rw [Multiset.card_add, Multiset.card_add, Multiset.card_add, Multiset.coe_card,
          Multiset.coe_card] at hcard
        have hnil : rest.flatten = [] := length_eq_zero_iff.mp (by omega)
        cases rest with
        | nil => rfl
        | cons other rest =>
          have hsome := (hchunks other (mem_cons_of_mem _ mem_cons_self)).1
          rw [flatten_cons, append_eq_nil_iff] at hnil
          rw [hnil.1] at hsome
          exact absurd hsome (Nat.not_succ_le_zero 0)
      · rintro rfl
        refine ⟨hprocessed₁, ?_⟩
        rintro _ _ ⟨⟩
        rw [hadd, ← hinput]
        simp

end

/-- **When every item is accounted for.** All requests are sound, and a nil error means that all
items have been accepted, whatever the client and the context do. `Processed` is the number of items
that have been accepted, and what is unprocessed when a budget is used up is listed, exactly if the
replies leave no chunk half written and no chunk after one whose budget is used up. -/
theorem items_accounted_iff (ctx : Context) (client : Option (Client T I C M E))
    (input : TableMap T I) (maxAttempts : ℤ) :
    Sound input.content (writeAll ctx client input maxAttempts).calls ∧
    ((writeAll ctx client input maxAttempts).err = none →
      accepted (writeAll ctx client input maxAttempts).calls = input.content) ∧
    (Accounted input.content (writeAll ctx client input maxAttempts).err
        (writeAll ctx client input maxAttempts).result.processed
        (writeAll ctx client input maxAttempts).calls ↔
      ∀ c, client = some c → 0 < maxAttempts →
        Complete c ctx maxAttempts.toNat (chunkItems input.flatten maxItemsPerBatch) 0 0) := by
  have hnothing : Sound input.content ([] : List (Call T I C M E)) :=
    fun before c after h => absurd h (by simp)
  unfold writeAll
  cases client with
  | none => exact ⟨hnothing, nofun, iff_of_true ⟨rfl, nofun⟩ nofun⟩
  | some client =>
    dsimp only
    split_ifs with hmax hempty
    · refine ⟨hnothing, nofun, iff_of_true ⟨rfl, nofun⟩ fun _ _ hpos => ?_⟩
      omega
    · refine ⟨hnothing, nofun, iff_of_true ⟨rfl, nofun⟩ fun _ _ _ => ?_⟩
      rw [hempty]
      simp [chunkItems, maxItemsPerBatch, Complete]
    · rcases hloop : chunkLoop client ctx maxAttempts 0
        (chunkItems input.flatten maxItemsPerBatch) .start with ⟨err, k, s⟩
      have hinput : accepted (State.start : State T I C M E).calls +
          ((chunkItems input.flatten maxItemsPerBatch).flatten : List (T × I)) = input.content := by
        rw [flatten_chunkItems _ (by decide)]
        exact zero_add _
      obtain ⟨hsound, hall, hiff⟩ := chunkLoop_spec (not_le.mp hmax)
        (fun chunk hchunk => length_of_mem_chunkItems (by decide) hchunk) rfl hnothing hinput hloop
      refine ⟨hsound, hall, hiff.trans ⟨?_, fun h => h client rfl (not_le.mp hmax)⟩⟩
      rintro hcomplete _ ⟨⟩ -
      exact hcomplete

/-! ### Items that are written, and items that are lost sight of -/

/-- A client that leaves all but the first item unprocessed, up to the `n`-th call, and then
fails. -/
def oneAtATime (n : ℕ) : Client ℕ ℕ Unit Unit Unit where
  respond k request :=
    if k < n then .done (some ⟨itemsToRequestMap (request.flatten.drop 1), [], .empty⟩)
    else .failed ()
  part k request out h := by
    split_ifs at h
    cases h
    change (itemsToRequestMap _).content ≤ _
    rw [content_itemsToRequestMap]
    exact Multiset.coe_le.mpr (drop_sublist 1 _).subperm

def overloaded : Client ℕ ℕ Unit Unit Unit where
  respond _ request := .done (some ⟨request, [], .empty⟩)
  part _ request out h := by
    cases h
    exact le_rfl

def threeItems : TableMap ℕ ℕ := itemsToRequestMap [(1, 10), (0, 20), (1, 30)]

/-- **Items that are not accounted for.** With three attempts of which the third call fails, two
items have been written, and none is counted. With 26 items of which none is accepted, the error
lists 25. -/
theorem items_not_accounted :
    (accepted (writeAll (fun _ => none) (some (oneAtATime 2)) threeItems 3).calls).card = 2 ∧
    (writeAll (fun _ => none) (some (oneAtATime 2)) threeItems 3).result.processed = 0 ∧
    ∃ items, (writeAll (fun _ => none) (some overloaded)
        (itemsToRequestMap ((List.range 26).map fun i => (0, i))) 1).err =
        some (.unprocessed 1 items) ∧ items.count = 25 ∧
      (accepted (writeAll (fun _ => none) (some overloaded)
        (itemsToRequestMap ((List.range 26).map fun i => (0, i))) 1).calls).card = 0 := by
  refine ⟨by decide +kernel, by decide +kernel, _, rfl, by decide +kernel, by decide +kernel⟩

end Bluetape.Dynamodb
