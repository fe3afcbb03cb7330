import Bluetape.Go
import Bluetape.Library.Run

/-!
# The fenced lock

A model of `redis/lock`: the two Redis keys of one lock, `acquireScript`, and the
client side of `TryAcquire` with its recovery path `reconcileAcquire`. The script
is one atomic command; the recovery is **two** – a `GET` of the owner key, then a
`GET` of the counter – and anything may happen in between.

A state (`Sys`) holds the keys and any number of `TryAcquire` calls, each in one of the phases of
the client code. A step is one Redis command, the delivery or the loss of a reply, or the expiry of
the owner key. The owner token of a call is 256 random bits (`NewOwnerToken`), so two calls never
share one; a call's index stands for its token. The expiry of the owner key is a step of its own
that may come at any moment, which covers every `TTL`.

* `fencesOrdered_of_fresh_reads`: leases carry distinct fencing tokens, in the order of their
  acquisitions, if recovery reads find the counter as the call's own acquisition left it.
* `fence_duplicated`: without that they do not: the owner key expires between the two reads, and
  another client acquires.
-/

namespace Bluetape.FencedLock

open Go Lts Function Option

/-! ### The keys and the script -/

/-- The keys of one lock: the owner key, present or not, with the call whose token
it holds, and the fencing counter (an absent counter counts as zero). -/
structure Keys where
  owner : Option ℕ := none
  counter : ℤ := 0
  deriving DecidableEq, Repr

/-- What the client receives for a script command: the values the script returned,
or an error. -/
abbrev Reply := Except String (List ℤ)

/-- `acquireScript`, run for the token of call `id`. `INCR` refuses to pass the
largest 64-bit integer, which aborts the script before its `SET`. -/
def acquireScript (k : Keys) (id : ℕ) : Keys × Reply :=
  match k.owner with
  | some _ => (k, .ok [0, 0])
  | none =>
    if k.counter = maxInt64 then (k, .error "ERR increment or decrement would overflow")
    else (⟨some id, k.counter + 1⟩, .ok [1, k.counter + 1])

/-- `compareDeleteScript`, as `Release` runs it for the token of call `id`. -/
def compareDelete (k : Keys) (id : ℕ) : Keys :=
  if k.owner = some id then { k with owner := none } else k

/-- `parseAcquireResult`: whether the lock was acquired, with its fencing token, or
the error. -/
def parseAcquireResult : Reply → Except String (Bool × ℕ)
  | .error e => .error e
  | .ok [0, fence] =>
    if fence ≠ 0 then .error ("unexpected busy fenced lock token " ++ toString fence)
    else .ok (false, 0)
  | .ok [1, fence] =>
    if fence ≤ 0 then .error ("unexpected fencing token " ++ toString fence)
    else .ok (true, fence.toNat)
  | .ok [status, _] => .error ("unexpected fenced lock script status " ++ toString status)
  | .ok values =>
    .error ("unexpected fenced lock script result length " ++ toString values.length)

/-! ### The clients -/

/-- Where a `TryAcquire` call is. -/
inductive Phase where
  | waiting
  /-- `reconcileAcquire`, about to `GET` the owner key. -/
  | probeOwner
  /-- `reconcileAcquire`, about to `GET` the counter. -/
  | probeCounter
  | acquired (fence : ℕ)
  /-- The call returned `ErrNotAcquired` or an operation error. -/
  | failed
  deriving DecidableEq, Repr

/-- A `TryAcquire` call. The script runs at most once for it; `written` records,
for the statements below, how many writes of the owner key preceded its own. -/
structure Call where
  phase : Phase := .waiting
  reply : Option Reply := none
  written : Option ℕ := none

/-- The keys, the calls made so far, and the number of writes of the owner key. -/
structure Sys where
  keys : Keys := {}
  calls : ℕ → Option Call := fun _ => none
  writes : ℕ := 0

inductive Label where
  /-- A client calls `TryAcquire`. -/
  | tryAcquire (id : ℕ)
  | runScript (id : ℕ)
  | reply (id : ℕ)
  /-- The client gets an error instead of the reply: the command or its reply was
  lost, or is late. -/
  | loseReply (id : ℕ)
  /-- The first `GET` of `reconcileAcquire`; `ok` is false if the command fails. -/
  | getOwner (id : ℕ) (ok : Bool)
  /-- The second `GET` of `reconcileAcquire`. -/
  | getCounter (id : ℕ) (ok : Bool)
  | release (id : ℕ)
  | expire
  deriving DecidableEq, Repr

def Sys.set (s : Sys) (id : ℕ) (c : Call) : Sys :=
  { s with calls := update s.calls id (some c) }

def Sys.runScript (s : Sys) (id : ℕ) (c : Call) : Sys :=
  match s.keys.owner, (acquireScript s.keys id).2 with
  | none, .ok r =>
    { keys := (acquireScript s.keys id).1
      calls := update s.calls id (some { c with reply := some (.ok r), written := some s.writes })
      writes := s.writes + 1 }
  | _, r => s.set id { c with reply := some r }

/-- What `TryAcquire` does with the reply of its script. -/
def afterReply (r : Reply) : Phase :=
  match parseAcquireResult r with
  | .error _ => .probeOwner
  | .ok (false, _) => .failed
  | .ok (true, fence) => .acquired fence

/-- What `reconcileAcquire` does with the counter it read: the parsed value must be
positive. -/
def afterCounter (counter : ℤ) : Phase :=
  if 0 < counter then .acquired counter.toNat else .failed

/-- **One step of the system**; `none` where the step is not possible. -/
def step (s : Sys) : Label → Option Sys
  | .tryAcquire id =>
    match s.calls id with
    | some _ => none
    | none => some (s.set id {})
  -- also for a call that has given up waiting: a command may arrive late
  | .runScript id =>
    match s.calls id with
    | some c => if c.reply.isNone then some (s.runScript id c) else none
    | none => none
  | .reply id =>
    match s.calls id with
    | some c =>
      match c.phase, c.reply with
      | .waiting, some r => some (s.set id { c with phase := afterReply r })
      | _, _ => none
    | none => none
  | .loseReply id =>
    match s.calls id with
    | some c =>
      if c.phase = .waiting then some (s.set id { c with phase := .probeOwner }) else none
    | none => none
  | .getOwner id ok =>
    match s.calls id with
    | some c =>
      if c.phase = .probeOwner then
        if ok = true ∧ s.keys.owner = some id then some (s.set id { c with phase := .probeCounter })
        else some (s.set id { c with phase := .failed })
      else none
    | none => none
  | .getCounter id ok =>
    match s.calls id with
    | some c =>
      if c.phase = .probeCounter then
        if ok = true then some (s.set id { c with phase := afterCounter s.keys.counter })
        else some (s.set id { c with phase := .failed })
      else none
    | none => none
  | .release id =>
    match s.calls id with
    | some c =>
      match c.phase with
      | .acquired _ => some { s with keys := compareDelete s.keys id }
      | _ => none
    | none => none
  | .expire => some { s with keys := { s.keys with owner := none } }

/-- **The runs of one lock**, from absent keys. -/
abbrev Runs (h : List (Event Sys Label)) (s : Sys) : Prop := Run step {} h s

/-! ### The fencing law -/

/-- **The fencing law**: two leases never carry the same token, and the one whose
owner key was written later carries the larger token. -/
def FencesOrdered (s : Sys) : Prop :=
  ∀ i j ci cj f g, i ≠ j → s.calls i = some ci → s.calls j = some cj →
    ci.phase = .acquired f → cj.phase = .acquired g →
    f ≠ g ∧ ∀ wi wj, ci.written = some wi → cj.written = some wj → wi < wj → f < g

/-- **A stale recovery read**: `reconcileAcquire` reads the counter after another
call has acquired the lock since the acquisition it is recovering. -/
def StaleCounterRead (ev : Event Sys Label) : Prop :=
  ∃ id c w, ev.label = .getCounter id true ∧ ev.before.calls id = some c ∧
    c.written = some w ∧ w + 1 < ev.before.writes

/-- What is known of a call when `writes` owner keys have been written: the reply of
its script tells whether it wrote the owner key, and a returned lease carries the
token of that write. -/
structure Call.Ok (writes : ℕ) (c : Call) : Prop where
  written_lt : ∀ w, c.written = some w → w < writes
  reply_of_written : ∀ w, c.written = some w → c.reply = some (.ok [1, (w : ℤ) + 1])
  reply_of_not_written : c.written = none →
    c.reply = none ∨ c.reply = some (.ok [0, 0]) ∨ ∃ e, c.reply = some (.error e)
  written_of_probe : c.phase = .probeCounter → ∃ w, c.written = some w
  fence : ∀ f, c.phase = .acquired f → ∃ w, c.written = some w ∧ f = w + 1

/-- **The invariant of the lock**: the counter counts the writes of the owner key,
the owner key holds the token of a call that wrote it, and no two calls are the same
write. -/
structure Inv (s : Sys) : Prop where
  counter : s.keys.counter = s.writes
  owner : ∀ id, s.keys.owner = some id → ∃ c w, s.calls id = some c ∧ c.written = some w
  calls : ∀ id c, s.calls id = some c → c.Ok s.writes
  distinct : ∀ i j ci cj w, s.calls i = some ci → s.calls j = some cj →
    ci.written = some w → cj.written = some w → i = j

variable {s : Sys}

theorem Inv.fencesOrdered (hinv : Inv s) : FencesOrdered s := by
  intro i j ci cj f g hij hi hj hf hg
  obtain ⟨wi, hwi, rfl⟩ := (hinv.calls i ci hi).fence f hf
  obtain ⟨wj, hwj, rfl⟩ := (hinv.calls j cj hj).fence g hg
  refine ⟨fun heq => ?_, fun wi' wj' hwi' hwj' hlt => ?_⟩
  · obtain rfl : wi = wj := Nat.succ.inj heq
    exact hij (hinv.distinct i j ci cj wi hi hj hwi hwj)
  · obtain rfl := mem_unique hwi hwi'
    obtain rfl := mem_unique hwj hwj'
    exact Nat.succ_lt_succ hlt

variable {id : ℕ}

/-- **Replacing a call by one with the same write keeps the invariant**, if the new
record is consistent with that write. Every step of a client is of this kind. -/
theorem Inv.set (hinv : Inv s) {c c' : Call} (hc : s.calls id = some c)
    (hw : c'.written = c.written) (hok : c'.Ok s.writes) : Inv (s.set id c') := by
  -- the write of a call of the new state, looked up in the old one
  have hold : ∀ j cj w, (s.set id c').calls j = some cj → cj.written = some w →
      ∃ cj', s.calls j = some cj' ∧ cj'.written = some w := by
    intro j cj w hj hwj
    rcases update_eq_some hj with ⟨rfl, rfl⟩ | ⟨-, hj'⟩
    · exact ⟨c, hc, hw ▸ hwj⟩
    · exact ⟨cj, hj', hwj⟩
  refine ⟨hinv.counter, fun j hj => ?_, fun j cj hj => ?_, fun i j ci cj w hi hj hwi hwj => ?_⟩
  · obtain ⟨cj, w, hcj, hwj⟩ := hinv.owner j hj
    by_cases hjid : j = id
    · subst hjid
      obtain rfl := mem_unique hc hcj
      exact ⟨c', w, update_self .., hw.trans hwj⟩
    · exact ⟨cj, w, (update_of_ne hjid ..).trans hcj, hwj⟩
  · rcases update_eq_some hj with ⟨-, rfl⟩ | ⟨-, hj'⟩
    · exact hok
    · exact hinv.calls j cj hj'
  · obtain ⟨ci', hi', hwi'⟩ := hold i ci w hi hwi
    obtain ⟨cj', hj', hwj'⟩ := hold j cj w hj hwj
    exact hinv.distinct i j ci' cj' w hi' hj' hwi' hwj'

variable {c : Call} {writes : ℕ}

/-- A phase in which nothing was read from the counter is consistent with any
write. -/
theorem Call.Ok.withPhase (hok : c.Ok writes) {ph : Phase}
    (hprobe : ph = .probeCounter → ∃ w, c.written = some w)
    (hfence : ∀ f, ph = .acquired f → ∃ w, c.written = some w ∧ f = w + 1) :
    Call.Ok writes { c with phase := ph } :=
  ⟨hok.written_lt, hok.reply_of_written, hok.reply_of_not_written, hprobe, hfence⟩

/-- **A call may move to any phase that is consistent with its write.** -/
theorem Inv.setPhase (hinv : Inv s) (hc : s.calls id = some c) {ph : Phase}
    (hprobe : ph = .probeCounter → ∃ w, c.written = some w)
    (hfence : ∀ f, ph = .acquired f → ∃ w, c.written = some w ∧ f = w + 1) :
    Inv (s.set id { c with phase := ph }) :=
  hinv.set hc rfl ((hinv.calls id c hc).withPhase hprobe hfence)

theorem afterReply_fence (hok : c.Ok writes) {r : Reply} (hr : c.reply = some r) :
    afterReply r ≠ .probeCounter ∧
      ∀ f, afterReply r = .acquired f → ∃ w, c.written = some w ∧ f = w + 1 := by
  cases hw : c.written with
  | some w =>
    obtain rfl := mem_unique hr (hok.reply_of_written w hw)
    have hphase : afterReply (.ok [1, (w : ℤ) + 1]) = .acquired (w + 1) := by
      congr 1
    rw [hphase]
    refine ⟨by simp, fun f hf => ⟨w, rfl, ?_⟩⟩
    simpa using hf.symm
  | none =>
    rcases hok.reply_of_not_written hw with h | h | ⟨e, h⟩
    · exact nomatch hr.symm.trans h
    · obtain rfl := mem_unique hr h
      have hphase : afterReply (.ok [0, 0]) = .failed := by simp [afterReply, parseAcquireResult]
      rw [hphase]
      exact ⟨by simp, by simp⟩
    · obtain rfl := mem_unique hr h
      have hphase : afterReply (.error e) = .probeOwner := by
        simp [afterReply, parseAcquireResult]
      rw [hphase]
      exact ⟨by simp, by simp⟩

theorem Call.Ok.mono {m n : ℕ} (hok : c.Ok m) (hmn : m ≤ n) : c.Ok n :=
  ⟨fun w hw => (hok.written_lt w hw).trans_le hmn, hok.reply_of_written,
    hok.reply_of_not_written, hok.written_of_probe, hok.fence⟩

theorem Call.Ok.written_eq_none (hok : c.Ok writes) (hr : c.reply = none) : c.written = none := by
  cases hw : c.written with
  | none => rfl
  | some w => exact nomatch hr.symm.trans (hok.reply_of_written w hw)

/-- The state in which the script of call `id` has acquired the lock. -/
def Sys.acquire (s : Sys) (id : ℕ) (c : Call) : Sys :=
  { keys := ⟨some id, s.keys.counter + 1⟩
    calls := update s.calls id (some
      { c with reply := some (.ok [1, s.keys.counter + 1]), written := some s.writes })
    writes := s.writes + 1 }

/-- **What running a script can do**: nothing to the keys if the lock is busy or the
counter is exhausted; otherwise it acquires. -/
theorem runScript_cases (s : Sys) (id : ℕ) (c : Call) :
    (∃ r, (r = .ok [0, 0] ∨ ∃ e, r = .error e) ∧
      s.runScript id c = s.set id { c with reply := some r }) ∨
    s.runScript id c = s.acquire id c := by
  cases ho : s.keys.owner with
  | some o =>
    refine .inl ⟨.ok [0, 0], .inl rfl, ?_⟩
    simp [Sys.runScript, acquireScript, ho]
  | none =>
    by_cases hmax : s.keys.counter = maxInt64
    · refine .inl ⟨.error "ERR increment or decrement would overflow", .inr ⟨_, rfl⟩, ?_⟩
      simp [Sys.runScript, acquireScript, ho, hmax]
    · refine .inr ?_
      simp [Sys.runScript, Sys.acquire, acquireScript, ho, hmax]

/-- **Acquiring keeps the invariant**: the new write has the next token, and it is
nobody else's. -/
theorem Inv.acquire (hinv : Inv s) (hc : s.calls id = some c) (hw : c.written = none) :
    Inv (s.acquire id c) := by
  have hok := hinv.calls id c hc
  have hnew : ∀ j cj, s.calls j = some cj → cj.written ≠ some s.writes := fun j cj hj hcon =>
    absurd ((hinv.calls j cj hj).written_lt _ hcon) (lt_irrefl _)
  refine ⟨?_, fun j hj => ?_, fun j cj hj => ?_, fun i j ci cj w hi hj hwi hwj => ?_⟩
  · simp [Sys.acquire, hinv.counter]
  · obtain rfl : id = j := Option.some.inj hj
    exact ⟨_, s.writes, update_self .., rfl⟩
  · rcases update_eq_some hj with ⟨-, rfl⟩ | ⟨-, hj'⟩
    · refine ⟨fun w hw' => ?_, fun w hw' => ?_, fun hw' => by simp at hw',
        fun _ => ⟨s.writes, rfl⟩, fun f hf => ?_⟩
      · obtain rfl : s.writes = w := by simpa using hw'
        exact Nat.lt_succ_self _
      · obtain rfl : s.writes = w := by simpa using hw'
        simp [hinv.counter]
      · -- a call that has written nothing has no lease
        obtain ⟨w, hw', -⟩ := hok.fence f hf
        exact nomatch hw.symm.trans hw'
    · exact (hinv.calls j cj hj').mono (Nat.le_succ _)
  · rcases update_eq_some hi with ⟨rfl, rfl⟩ | ⟨-, hi'⟩ <;>
      rcases update_eq_some hj with ⟨rfl, rfl⟩ | ⟨-, hj'⟩
    · rfl
    · obtain rfl : s.writes = w := by simpa using hwi
      exact absurd hwj (hnew j cj hj')
    · obtain rfl : s.writes = w := by simpa using hwj
      exact absurd hwi (hnew i ci hi')
    · exact hinv.distinct i j ci cj w hi' hj' hwi hwj

/-- **Running the script keeps the invariant.** -/
theorem Inv.runScript (hinv : Inv s) (hc : s.calls id = some c) (hr : c.reply = none) :
    Inv (s.runScript id c) := by
  have hok := hinv.calls id c hc
  have hw := hok.written_eq_none hr
  rcases runScript_cases s id c with ⟨r, hcases, hrun⟩ | hrun
  · rw [hrun]
    refine hinv.set hc rfl ⟨hok.written_lt, fun w hw' => ?_, fun _ => .inr ?_,
      hok.written_of_probe, hok.fence⟩
    · exact nomatch hw.symm.trans hw'
    · rcases hcases with rfl | ⟨e, rfl⟩
      · exact .inl rfl
      · exact .inr ⟨e, rfl⟩
  · rw [hrun]
    exact hinv.acquire hc hw

theorem Inv.withKeys (hinv : Inv s) {k : Keys} (hcounter : k.counter = s.keys.counter)
    (howner : ∀ id, k.owner = some id → s.keys.owner = some id) : Inv { s with keys := k } :=
  ⟨hcounter.trans hinv.counter, fun id hid => hinv.owner id (howner id hid), hinv.calls,
    hinv.distinct⟩

theorem Inv.tryAcquire (hinv : Inv s) (hid : s.calls id = none) : Inv (s.set id {}) := by
  refine ⟨hinv.counter, fun j hj => ?_, fun j cj hj => ?_, fun i j ci cj w hi hj hwi hwj => ?_⟩
  · -- the owner is a call that exists, so not the new one
    obtain ⟨cj, w, hcj, hwj⟩ := hinv.owner j hj
    have hjid : j ≠ id := by
      rintro rfl
      exact nomatch hid.symm.trans hcj
    exact ⟨cj, w, (update_of_ne hjid ..).trans hcj, hwj⟩
  · rcases update_eq_some hj with ⟨-, rfl⟩ | ⟨-, hj'⟩
    · exact ⟨by simp, by simp, fun _ => .inl rfl, by simp, by simp⟩
    · exact hinv.calls j cj hj'
  · rcases update_eq_some hi with ⟨-, rfl⟩ | ⟨-, hi'⟩
    · cases hwi
    · rcases update_eq_some hj with ⟨-, rfl⟩ | ⟨-, hj'⟩
      · cases hwj
      · exact hinv.distinct i j ci cj w hi' hj' hwi hwj

/-- **Every step keeps the invariant, unless it is a stale recovery read.** -/
theorem inv_step {s s' : Sys} {e : Label} (hinv : Inv s) (hs : step s e = some s')
    (hfresh : ¬StaleCounterRead ⟨s, e, s'⟩) : Inv s' := by
  cases e with
  | tryAcquire id =>
    simp only [step] at hs
    split at hs <;> cases hs
    next hc => exact hinv.tryAcquire hc
  | runScript id =>
    simp only [step] at hs
    split at hs <;> try cases hs
    next c hc =>
      obtain ⟨hr, ⟨⟩⟩ := ite_none_right_eq_some.mp hs
      exact hinv.runScript hc (isNone_iff_eq_none.mp hr)
  | reply id =>
    simp only [step] at hs
    split at hs <;> try cases hs
    next c hc =>
      split at hs <;> cases hs
      next hr =>
        obtain ⟨hno, hfence⟩ := afterReply_fence (hinv.calls id c hc) hr
        exact hinv.setPhase hc (fun h => absurd h hno) hfence
  | loseReply id =>
    simp only [step] at hs
    split at hs <;> try cases hs
    next c hc =>
      obtain ⟨-, ⟨⟩⟩ := ite_none_right_eq_some.mp hs
      exact hinv.setPhase hc (by simp) (by simp)
  | getOwner id ok =>
    simp only [step] at hs
    split at hs <;> try cases hs
    next c hc =>
      obtain ⟨-, hs⟩ := ite_none_right_eq_some.mp hs
      split_ifs at hs with hown <;> cases hs
      · -- the owner key holds this call's token, so this call wrote it
        obtain ⟨c', w, hc', hw⟩ := hinv.owner id hown.2
        obtain rfl := mem_unique hc hc'
        exact hinv.setPhase hc (fun _ => ⟨w, hw⟩) (by simp)
      · exact hinv.setPhase hc (by simp) (by simp)
  | getCounter id ok =>
    simp only [step] at hs
    split at hs <;> try cases hs
    next c hc =>
      obtain ⟨hph, hs⟩ := ite_none_right_eq_some.mp hs
      split_ifs at hs with hread <;> cases hs
      · cases hread
        have hok := hinv.calls id c hc
        obtain ⟨w, hw⟩ := hok.written_of_probe hph
        -- no other call has acquired since: the counter is this call's token
        have hlast : s.writes = w + 1 := by
          have hlt := hok.written_lt w hw
          have hge : ¬w + 1 < s.writes := fun hlt' => hfresh ⟨id, c, w, rfl, hc, hw, hlt'⟩
          omega
        have hcount : afterCounter s.keys.counter = .acquired (w + 1) := by
          rw [hinv.counter, hlast, afterCounter, if_pos (by omega), Int.toNat_natCast]
        rw [hcount]
        refine hinv.setPhase hc (by simp) fun f hf => ⟨w, hw, ?_⟩
        exact (Phase.acquired.inj hf).symm
      · exact hinv.setPhase hc (by simp) (by simp)
  | release id =>
    simp only [step] at hs
    split at hs <;> try cases hs
    next c hc =>
      split at hs <;> cases hs
      refine hinv.withKeys ?_ fun j hj => ?_
      · unfold compareDelete
        split <;> rfl
      · unfold compareDelete at hj
        split at hj
        · cases hj
        · exact hj
  | expire =>
    cases hs
    exact hinv.withKeys rfl nofun

theorem inv_init : Inv {} :=
  ⟨rfl, nofun, nofun, nofun⟩

/-- **When fencing tokens are unique and ordered**: in every run of any number of
`TryAcquire` calls, releases and expiries in which no recovery reads the counter
after another call has acquired since, the fencing law holds in every state
reached. -/
theorem fencesOrdered_of_fresh_reads {h : List (Event Sys Label)} {s : Sys}
    (hr : Runs h s) (hfresh : ∀ ev ∈ h, ¬StaleCounterRead ev) : FencesOrdered s :=
  Inv.fencesOrdered <|
    hr.invariant_of_mem hfresh inv_init fun _ _ _ hinv hs hc => inv_step hinv hs hc

/-- The fencing token of the lease a call returned, if it did. -/
def Sys.lease (s : Sys) (id : ℕ) : Option ℕ :=
  match s.calls id with
  | some ⟨.acquired f, _, _⟩ => some f
  | _ => none

theorem Sys.phase_of_lease {id f : ℕ} (hl : s.lease id = some f) :
    ∃ c, s.calls id = some c ∧ c.phase = .acquired f := by
  unfold Sys.lease at hl
  split at hl
  · cases hl
    exact ⟨_, by assumption, rfl⟩
  · cases hl

/-- A lease recovered after a lost reply, released, and a second lease: the run has
no stale read, and its tokens are ordered. -/
theorem fencesOrdered_recovered :
    ∃ h s, Runs h s ∧ s.lease 0 = some 1 ∧ s.lease 1 = some 2 ∧ FencesOrdered s := by
  obtain ⟨h, s, hr, hfirst, hsecond, hreads⟩ := exists_run step {}
    [.tryAcquire 0, .runScript 0, .loseReply 0, .getOwner 0 true, .getCounter 0 true,
    .release 0, .tryAcquire 1, .runScript 1, .reply 1]
    (fun h s => s.lease 0 = some 1 ∧ s.lease 1 = some 2 ∧ ∀ ev ∈ h, (match ev.label with
      | .getCounter _ _ => ev.before.writes == 1
      | _ => true) = true)
    (by decide)
  refine ⟨h, s, hr, hfirst, hsecond, fencesOrdered_of_fresh_reads hr fun ev hev => ?_⟩
  rintro ⟨id, c, w, hlab, -, -, hlt⟩
  have hone := hreads ev hev
  rw [hlab] at hone
  rw [beq_iff_eq.mp hone] at hlt
  omega

/-- **Two leases can carry the same token**: the reply of call `0` is lost, its owner
key is found but expires before the counter is read, and call `1` acquires in
between. Both return the token `2`. -/
theorem fence_duplicated :
    ¬∀ (h : List (Event Sys Label)) (s : Sys), Runs h s → FencesOrdered s := by
  intro hall
  obtain ⟨h, s, hr, hfirst, hsecond⟩ := exists_run step {}
    [.tryAcquire 0, .tryAcquire 1, .runScript 0, .loseReply 0, .getOwner 0 true, .expire,
    .runScript 1, .reply 1, .getCounter 0 true]
    (fun _ s => s.lease 0 = some 2 ∧ s.lease 1 = some 2)
    (by decide)
  obtain ⟨c₀, hc₀, hf₀⟩ := Sys.phase_of_lease hfirst
  obtain ⟨c₁, hc₁, hf₁⟩ := Sys.phase_of_lease hsecond
  exact (hall h s hr 0 1 c₀ c₁ 2 2 (by decide) hc₀ hc₁ hf₀ hf₁).1 rfl

end Bluetape.FencedLock
