import Bluetape.Leader.EtcdElector

/-!
# Generations of the etcd elector

What holds of the generations of one elector, in every run of `Campaign` and `Resign` calls and of
the monitors (`generations_sound`).

* **A generation that was lost stays lost**: `IsLeader` is never true on its account again.
* **One generation at most is the reason** why `IsLeader` is true.
* **A generation is started after the one before is settled**: no `Campaign` is running then, and
  each earlier generation has got no lease, or its lease was revoked, or its key was read and was
  not there or was another one.

The danger is that a `Campaign` publishes a generation that its monitor has already lost. The
monitor puts its error into `terminal` before it takes the generation back, and only the `Campaign`
reads that channel: if it has not read the error yet, it will find it in the section in which it
would publish (`PhaseOk`). A `Resign` does not take a generation that is about to be published.
-/

namespace Bluetape.Leader.Etcd

open GoString Lts Option List

/-! ### What is stated -/

/-- `IsLeader` is true, and this generation is the reason. -/
def LeaderBy (y : Sys) (n : ℕ) : Prop :=
  y.current = some n ∧ ∃ g, y.gens[n]? = some g ∧ g.published = true ∧ g.cancelled = false

/-- **The monitor takes its generation back**, in `loseGeneration`, the last section before it
ends. -/
def Loses (n : ℕ) (ev : Ev) : Prop := ev.label = .monitor n .lose

/-- **A `Resign` takes a generation back.** -/
def Takes (n : ℕ) (ev : Ev) : Prop :=
  ev.label = .take ∧ (takes ev.before).map Prod.fst = some n

def cleans (y : Sys) : Label → Option (ℕ × CleanAct)
  | .campaign i (.clean a) => y.campaigns[i]?.map fun c => (c.gen, a)
  | .resign j (.clean a) => y.resigns[j]?.map fun r => (r.gen, a)
  | _ => none

/-- **A lease was revoked, or its key was read** and was not there or was another one. -/
def Proves (cfg : Config) (n : ℕ) (ev : Ev) : Prop :=
  cleans ev.before ev.label = some (n, .revoke true) ∨
    ∃ response g, cleans ev.before ev.label = some (n, .read (some response)) ∧
      ev.before.gens[n]? = some g ∧ absentOrReplaced cfg g response = true

/-- **A generation is settled.** -/
def Settled (cfg : Config) (h : List Ev) (n : ℕ) (g : Gen) : Prop :=
  g.leaseID = 0 ∨ ∃ ev ∈ h, Proves cfg n ev

/-- A `Campaign` is running. -/
def Campaign.Active (c : Campaign) : Prop := c.phase ≠ .returned

/-! ### The invariant -/

def Monitor.Sent : Monitor → Prop
  | .idle | .running _ | .failing => False
  | _ => True

def Monitor.Lost : Monitor → Prop
  | .idle | .running _ | .failing | .losing => False
  | _ => True

/-- What is known of the generation of a `Campaign` until it is published. -/
structure Pending (h : List Ev) (current : Option ℕ) (n : ℕ) (g : Gen) : Prop where
  current_eq : current = some n
  published : g.published = false
  free : ¬∃ ev ∈ h, Takes n ev

/-- **What is known, by the phase of a `Campaign`.** While it waits and until it publishes, an error
that the monitor has sent is still in `terminal`. -/
def PhaseOk (cfg : Config) (h : List Ev) (current : Option ℕ) (n : ℕ) (g : Gen) :
    CampaignPhase → Prop
  | .begun | .granting => Pending h current n g ∧ g.monitor = .idle ∧ g.leaseID = 0
  | .opening | .electing | .proclaiming | .snapshotting | .watching =>
    Pending h current n g ∧ g.monitor = .idle
  | .waiting | .publishing => Pending h current n g ∧ (g.monitor.Sent → g.terminal = true)
  | .cleaning .proved => Settled cfg h n g
  | _ => True

/-- **The invariant.** -/
structure Inv (cfg : Config) (h : List Ev) (y : Sys) : Prop where
  /-- One `Campaign` at most is running. -/
  one : ∀ (i : ℕ) (c : Campaign), y.campaigns[i]? = some c → c.Active → y.campaigning = true ∧
    ∀ (j : ℕ) (d : Campaign), y.campaigns[j]? = some d → d.Active → j = i
  campaigns : ∀ (i : ℕ) (c : Campaign), y.campaigns[i]? = some c →
    ∃ g, y.gens[c.gen]? = some g ∧ PhaseOk cfg h y.current c.gen g c.phase
  resigns : ∀ (j : ℕ) (r : Resign), y.resigns[j]? = some r → (∃ ev ∈ h, Takes r.gen ev) ∧
    ∃ g, y.gens[r.gen]? = some g ∧ (r.phase = .cleaning .proved → Settled cfg h r.gen g)
  current : ∀ n, y.current = some n → ∃ g, y.gens[n]? = some g
  published : ∀ (n : ℕ) (g : Gen), y.gens[n]? = some g → y.current = some n →
    g.published = true → ¬g.monitor.Lost ∧ ¬∃ ev ∈ h, Takes n ev
  lost : ∀ (n : ℕ) (g : Gen), y.gens[n]? = some g → (∃ ev ∈ h, Loses n ev) → g.monitor.Lost
  settled : ∀ (n : ℕ) (g : Gen), y.gens[n]? = some g → y.current ≠ some n → Settled cfg h n g
  started : ∀ n, (∃ ev ∈ h, Takes n ev ∨ Loses n ev) → n < y.gens.length

section Frame

variable {cfg : Config} {h : List Ev} {y : Sys} {ev : Ev} {n i : ℕ} {g g' : Gen} {c c' : Campaign}

theorem Settled.cons (hs : Settled cfg h n g) : Settled cfg (ev :: h) n g := by
  exact hs.imp_right exists_mem_cons_of_exists

theorem exists_mem_cons_iff {P : Ev → Prop} (hev : ¬P ev) :
    (∃ ev' ∈ ev :: h, P ev') ↔ ∃ ev' ∈ h, P ev' :=
  (List.exists_mem_cons_iff P ev h).trans (or_iff_right hev)

variable {current : Option ℕ}

theorem Pending.cons (hp : Pending h current n g) (hev : ¬Takes n ev) :
    Pending (ev :: h) current n g :=
  ⟨hp.current_eq, hp.published, fun hex => hp.free ((exists_mem_cons_iff hev).mp hex)⟩

variable {phase : CampaignPhase}

theorem PhaseOk.cons (hok : PhaseOk cfg h current n g phase) (hev : ¬Takes n ev) :
    PhaseOk cfg (ev :: h) current n g phase := by
  cases phase with
  | cleaning p =>
    cases p with
    | proved => exact Settled.cons hok
    | _ => trivial
  | ending | returned => trivial
  | _ => exact ⟨hok.1.cons hev, hok.2⟩

section

variable (hinv : Inv cfg h y)
include hinv

/-- **An event that takes nothing keeps what is known**, if a monitor that it ends has lost its
generation. -/
theorem Inv.past (htakes : ∀ n, ¬Takes n ev)
    (hloses : ∀ n, Loses n ev → ∃ g, y.gens[n]? = some g ∧ g.monitor.Lost) :
    Inv cfg (ev :: h) y where
  one := hinv.one
  campaigns := by
    intro i c hi
    obtain ⟨g, hg, hok⟩ := hinv.campaigns i c hi
    exact ⟨g, hg, hok.cons (htakes c.gen)⟩
  resigns := by
    intro j r hj
    obtain ⟨htaken, g, hg, hproved⟩ := hinv.resigns j r hj
    exact ⟨(exists_mem_cons_iff (htakes r.gen)).mpr htaken, g, hg, fun hp => (hproved hp).cons⟩
  current := hinv.current
  published := by
    intro n g hg hcur hpub
    obtain ⟨hlost, hfree⟩ := hinv.published n g hg hcur hpub
    exact ⟨hlost, fun hex => hfree ((exists_mem_cons_iff (htakes n)).mp hex)⟩
  lost := by
    intro n g hg hex
    rcases or_exists_of_exists_mem_cons hex with hev | hold
    · obtain ⟨g', hg', hlost⟩ := hloses n hev
      exact mem_unique hg hg' ▸ hlost
    · exact hinv.lost n g hg hold
  settled := fun n g hg hne => (hinv.settled n g hg hne).cons
  started := by
    intro n hex
    rcases or_exists_of_exists_mem_cons hex with (htake | hlose) | hold
    · exact absurd htake (htakes n)
    · obtain ⟨g', hg', -⟩ := hloses n hlose
      exact (List.getElem?_eq_some_iff.mp hg').1
    · exact hinv.started n hold

/-- **A generation is replaced**, and perhaps the `Campaign`s: they are in order, and what else
is said of the generation is still so. -/
theorem Inv.replace (hn : y.gens[n]? = some g) {campaigns : List Campaign}
    (hone : ∀ (i : ℕ) (c : Campaign), campaigns[i]? = some c → c.Active → y.campaigning = true ∧
      ∀ (j : ℕ) (d : Campaign), campaigns[j]? = some d → d.Active → j = i)
    (hcampaigns : ∀ (i : ℕ) (c : Campaign), campaigns[i]? = some c →
      ∃ gk, (y.setGen n g').gens[c.gen]? = some gk ∧ PhaseOk cfg h y.current c.gen gk c.phase)
    (hpub : y.current = some n → g'.published = true → ¬g'.monitor.Lost ∧ ¬∃ ev ∈ h, Takes n ev)
    (hlost : g.monitor.Lost → g'.monitor.Lost)
    (hsettled : (∃ ev ∈ h, Takes n ev) ∨ y.current ≠ some n → Settled cfg h n g →
      Settled cfg h n g') :
    Inv cfg h { y.setGen n g' with campaigns := campaigns } := by
  refine ⟨hone, hcampaigns, fun j r hj => ?_, fun k hk => ?_,
    forall_getElem?_set hinv.published hpub,
    forall_getElem?_set hinv.lost fun hloses => hlost (hinv.lost n g hn hloses),
    forall_getElem?_set hinv.settled fun hne => hsettled (.inr hne) (hinv.settled n g hn hne),
    fun k hk => ?_⟩
  · obtain ⟨htaken, hex⟩ := hinv.resigns j r hj
    refine ⟨htaken, exists_getElem?_set hn hex fun hrgen hold hproved => ?_⟩
    rw [hrgen] at htaken hold ⊢
    exact hsettled (.inl htaken) (hold hproved)
  · obtain ⟨gk, hgk⟩ := hinv.current k hk
    obtain ⟨gk', hgk', -⟩ := exists_getElem?_set (P := fun _ => True) hn ⟨gk, hgk, trivial⟩
      fun _ _ => trivial
    exact ⟨gk', hgk'⟩
  · exact (hinv.started k hk).trans_eq (length_set).symm

/-- **A `Campaign` moves on, and changes its generation.** -/
theorem Inv.moves (hi : y.campaigns[i]? = some c) (hactive : c.Active)
    (hn : y.gens[c.gen]? = some g) (hgen : c'.gen = c.gen)
    (hlease : g'.leaseID = g.leaseID ∨ (y.current = some c.gen ∧ ¬∃ ev ∈ h, Takes c.gen ev))
    (hpub : y.current = some c.gen → g'.published = true →
      ¬g'.monitor.Lost ∧ ¬∃ ev ∈ h, Takes c.gen ev)
    (hlost : g.monitor.Lost → g'.monitor.Lost)
    (hok : PhaseOk cfg h y.current c.gen g' c'.phase) :
    Inv cfg h ((y.setGen c.gen g').setCampaign i c') := by
  have hother : ∀ {j : ℕ} {d : Campaign}, (y.campaigns.set i c')[j]? = some d →
      (j = i ∧ d = c') ∨ (j ≠ i ∧ y.campaigns[j]? = some d ∧ d.phase = .returned) := by
    intro j d hj
    rcases getElem?_set_cases hj with ⟨rfl, rfl⟩ | ⟨hij, hd⟩
    · exact .inl ⟨rfl, rfl⟩
    · refine .inr ⟨hij, hd, ?_⟩
      by_contra hdactive
      exact hij ((hinv.one i c hi hactive).2 j d hd hdactive)
  refine hinv.replace hn (fun j d hj hd => ?_) (fun j d hj => ?_) hpub hlost fun hcase hs => ?_
  · rcases hother hj with ⟨rfl, rfl⟩ | ⟨-, -, hret⟩
    · refine ⟨(hinv.one j c hi hactive).1, fun k e hk he => ?_⟩
      rcases hother hk with ⟨rfl, -⟩ | ⟨-, -, hret⟩
      · rfl
      · exact absurd hret he
    · exact absurd hret hd
  · rcases hother hj with ⟨rfl, rfl⟩ | ⟨-, hd, hret⟩
    · rw [hgen]
      exact ⟨g', getElem?_set_of_some hn, hok⟩
    · rw [hret]
      obtain ⟨gk, hgk, -⟩ := hinv.campaigns j d hd
      exact exists_getElem?_set hn ⟨gk, hgk, trivial⟩ fun _ _ => trivial
  · rcases hlease with heq | ⟨hcur, hfree⟩
    · exact hs.imp_left heq.trans
    · rcases hcase with htaken | hne
      · exact absurd htaken hfree
      · exact absurd hcur hne

/-- A `Campaign` moves on, and changes nothing. -/
theorem Inv.setCampaign (hi : y.campaigns[i]? = some c) (hactive : c.Active)
    (hn : y.gens[c.gen]? = some g) (hgen : c'.gen = c.gen)
    (hok : PhaseOk cfg h y.current c.gen g c'.phase) : Inv cfg h (y.setCampaign i c') := by
  have hsame : y.setGen c.gen g = y := by
    obtain ⟨hlt, rfl⟩ := List.getElem?_eq_some_iff.mp hn
    rw [Sys.setGen, set_getElem_self]
  have hmoves := hinv.moves hi hactive hn hgen (.inl rfl) (hinv.published c.gen g hn) id hok
  rwa [hsame] at hmoves

/-- **A generation is changed, by its monitor or otherwise.** -/
theorem Inv.setGen (hn : y.gens[n]? = some g) (hlease : g'.leaseID = g.leaseID)
    (hpub : y.current = some n → g'.published = true → ¬g'.monitor.Lost ∧ g.published = true)
    (hlost : g.monitor.Lost → g'.monitor.Lost) (hidle : g.monitor = .idle → g'.monitor = .idle)
    (hterm : (g.monitor.Sent → g.terminal = true) → g'.monitor.Sent → g'.terminal = true) :
    Inv cfg h (y.setGen n g') := by
  have hsettled : Settled cfg h n g → Settled cfg h n g' := Or.imp_left hlease.trans
  have hpending : Pending h y.current n g → Pending h y.current n g' := by
    intro hp
    refine ⟨hp.current_eq, ?_, hp.free⟩
    cases hg' : g'.published with
    | false => rfl
    | true =>
      have hold := (hpub hp.current_eq hg').2
      exact absurd (hold.symm.trans hp.published) Bool.false_ne_true.symm
  have hphase : ∀ {phase : CampaignPhase}, PhaseOk cfg h y.current n g phase →
      PhaseOk cfg h y.current n g' phase := by
    intro phase hok
    cases phase with
    | begun | granting => exact ⟨hpending hok.1, hidle hok.2.1, hlease.trans hok.2.2⟩
    | opening | electing | proclaiming | snapshotting | watching =>
      exact ⟨hpending hok.1, hidle hok.2⟩
    | waiting | publishing => exact ⟨hpending hok.1, hterm hok.2⟩
    | cleaning p =>
      cases p with
      | proved => exact hsettled hok
      | _ => trivial
    | ending | returned => trivial
  refine hinv.replace hn hinv.one (fun i c hi => ?_) (fun hcur hpub' => ?_) hlost fun _ => hsettled
  · refine exists_getElem?_set hn (hinv.campaigns i c hi) fun hgen hok => ?_
    rw [hgen] at hok ⊢
    exact hphase hok
  · obtain ⟨hnot, hold⟩ := hpub hcur hpub'
    exact ⟨hnot, (hinv.published n g hn hcur hold).2⟩

structure Alike (g g' : Gen) : Prop where
  leaseID : g'.leaseID = g.leaseID
  published : g'.published = g.published
  monitor : g'.monitor = g.monitor
  terminal : g'.terminal = g.terminal

theorem Inv.touch (hn : y.gens[n]? = some g) (ha : Alike g g') : Inv cfg h (y.setGen n g') := by
  obtain ⟨hlease, hpub, hmonitor, hterminal⟩ := ha
  refine hinv.setGen hn hlease ?_ ?_ ?_ ?_
  · rw [hpub, hmonitor]
    exact fun hcur hp => ⟨(hinv.published n g hn hcur hp).1, hp⟩
  · rw [hmonitor]
    exact id
  · rw [hmonitor]
    exact id
  · rw [hmonitor, hterminal]
    exact id

/-- A `Resign` moves on. -/
theorem Inv.setResign {j : ℕ} {r r' : Resign} (hj : y.resigns[j]? = some r) (hgen : r'.gen = r.gen)
    (hproved : r'.phase = .cleaning .proved → ∀ g, y.gens[r.gen]? = some g →
      Settled cfg h r.gen g) : Inv cfg h (y.setResign j r') := by
  refine ⟨hinv.one, hinv.campaigns, forall_getElem?_set hinv.resigns ?_, hinv.current,
    hinv.published, hinv.lost, hinv.settled, hinv.started⟩
  obtain ⟨htaken, g, hg, -⟩ := hinv.resigns j r hj
  rw [hgen]
  exact ⟨htaken, g, hg, fun hp => hproved hp g hg⟩

/-- **A generation that is settled may be cleared**, if no `Campaign` is about to publish it. -/
theorem Inv.clear (hs : ∀ g, y.gens[n]? = some g → Settled cfg h n g)
    (hcalls : ∀ (i : ℕ) (c : Campaign) (g : Gen), y.campaigns[i]? = some c →
      y.current = some n → PhaseOk cfg h y.current c.gen g c.phase →
      PhaseOk cfg h none c.gen g c.phase) : Inv cfg h (y.clear n) := by
  unfold Sys.clear
  split_ifs with hcur
  · refine ⟨hinv.one, fun i c hi => ?_, hinv.resigns, fun k hk => (nomatch hk),
      fun k gk hk hcur => (nomatch hcur), hinv.lost, fun k gk hk _ => ?_, hinv.started⟩
    · obtain ⟨g, hg, hok⟩ := hinv.campaigns i c hi
      exact ⟨g, hg, hcalls i c g hi hcur hok⟩
    · by_cases hnk : y.current = some k
      · obtain rfl : n = k := mem_unique hcur hnk
        exact hs gk hk
      · exact hinv.settled k gk hk hnk
  · exact hinv

end

/-- Of a `Campaign` that is not about to publish, it is known at most that its generation is
settled. -/
theorem PhaseOk.settle {h' : List Ev} {current current' : Option ℕ}
    (hok : PhaseOk cfg h current n g phase) (hnot : phase ≠ .returned → ¬Pending h current n g)
    (hsettled : Settled cfg h n g → Settled cfg h' n g') : PhaseOk cfg h' current' n g' phase := by
  cases phase with
  | cleaning p =>
    cases p with
    | proved => exact hsettled hok
    | _ => trivial
  | ending | returned => trivial
  | _ => exact absurd hok.1 (hnot nofun)

theorem PhaseOk.of_taken {k : ℕ} (hok : PhaseOk cfg h current k g phase) (hcur : current = some n)
    (htaken : ∃ ev ∈ h, Takes n ev) : PhaseOk cfg h none k g phase := by
  refine hok.settle (fun _ hp => ?_) id
  obtain rfl : n = k := mem_unique hcur hp.current_eq
  exact hp.free htaken

end Frame

/-! ### Cleaning up -/

/-- **A cleanup that has proved something has reason to.** -/
theorem stepClean_proved {cfg : Config} {g g' : Gen} {p p' : Clean} {a : CleanAct}
    (hs : stepClean cfg g p a = some (g', p')) :
    Alike g g' ∧ (p' = .proved → g'.leaseID = 0 ∨ a = .revoke true ∨
      ∃ response, a = .read (some response) ∧ absentOrReplaced cfg g response = true) := by
  unfold stepClean at hs
  split at hs
  · -- `shutdown`
    cases hs
    exact ⟨⟨rfl, rfl, rfl, rfl⟩, nofun⟩
  · -- `join`
    obtain ⟨-, ⟨⟩⟩ := ite_none_right_eq_some.mp hs
    refine ⟨⟨rfl, rfl, rfl, rfl⟩, fun hp => .inl ?_⟩
    by_contra hne
    rw [if_neg hne] at hp
    exact nomatch hp
  · -- `revoke`
    cases hs
    refine ⟨⟨rfl, rfl, rfl, rfl⟩, fun hp => .inr (.inl ?_)⟩
    split_ifs at hp with hok
    rw [hok]
  · -- `read`
    cases hs
    refine ⟨⟨rfl, rfl, rfl, rfl⟩, fun hp => .inr (.inr ?_)⟩
    split_ifs at hp with hany
    obtain ⟨response, rfl, habsent⟩ := (Option.any_eq_true _ _).mp hany
    exact ⟨response, rfl, habsent⟩
  · cases hs

theorem settled_of_stepClean {cfg : Config} {h : List Ev} {ev : Ev} {n : ℕ} {g g' : Gen}
    {p p' : Clean} {a : CleanAct} (hs : stepClean cfg g p a = some (g', p'))
    (hcleans : cleans ev.before ev.label = some (n, a)) (hn : ev.before.gens[n]? = some g)
    (hp : p' = .proved) : Settled cfg (ev :: h) n g' := by
  rcases (stepClean_proved hs).2 hp with hzero | rfl | ⟨response, rfl, habsent⟩
  · exact .inl hzero
  · exact .inr ⟨ev, mem_cons_self, .inl hcleans⟩
  · exact .inr ⟨ev, mem_cons_self, .inr ⟨response, g, hcleans, hn, habsent⟩⟩

/-! ### Steps -/

section Steps

variable {cfg : Config} {h : List Ev} {y y' : Sys} {n i : ℕ} {g g' : Gen} {c : Campaign}

/-- A `Campaign` goes on, or fails, and has changed nothing yet. -/
theorem Inv.orFail (hinv : Inv cfg h y) (hi : y.campaigns[i]? = some c) (hactive : c.Active)
    (hn : y.gens[c.gen]? = some g) {ok : Bool} {next : CampaignPhase}
    (hok : PhaseOk cfg h y.current c.gen g next) :
    Inv cfg h (y.setCampaign i { c with phase := orFail ok next }) := by
  refine hinv.setCampaign hi hactive hn rfl ?_
  cases ok with
  | true => exact hok
  | false => trivial

/-- `failCampaign` begins. -/
theorem Inv.fail (hinv : Inv cfg h y) (hi : y.campaigns[i]? = some c) (hactive : c.Active)
    (hn : y.gens[c.gen]? = some g) :
    Inv cfg h (y.setCampaign i { c with phase := .cleaning .shutting }) :=
  hinv.setCampaign hi hactive hn rfl trivial

theorem Campaign.active_of_phase {phase : CampaignPhase} (hphase : c.phase = phase)
    (hne : phase ≠ .returned) : c.Active := fun hret => hne (hphase.symm.trans hret)

theorem Inv.phaseOk (hinv : Inv cfg h y) (hi : y.campaigns[i]? = some c)
    (hn : y.gens[c.gen]? = some g) {phase : CampaignPhase} (hphase : c.phase = phase) :
    PhaseOk cfg h y.current c.gen g phase := by
  obtain ⟨g₀, hg₀, hok⟩ := hinv.campaigns i c hi
  rw [mem_unique hn hg₀, ← hphase]
  exact hok

theorem Monitor.Lost.sent {m : Monitor} (hlost : m.Lost) : m.Sent := by
  cases m with
  | idle | running created | failing => exact hlost
  | _ => trivial

section

variable (hinv : Inv cfg h y)
include hinv

/-- `clearGeneration`, at the end of a `Campaign`. -/
theorem Inv.clearCampaign (hi : y.campaigns[i]? = some c) (hn : y.gens[c.gen]? = some g)
    (hphase : c.phase = .cleaning .proved) :
    Inv cfg h ((y.clear c.gen).setCampaign i { c with phase := .ending }) := by
  have hactive := Campaign.active_of_phase hphase fun h => nomatch h
  have hsettled : Settled cfg h c.gen g := hinv.phaseOk hi hn hphase
  have hcleared : Inv cfg h (y.clear c.gen) := by
    refine hinv.clear (fun g' hg' => mem_unique hn hg' ▸ hsettled) ?_
    intro j d g' hj _ hok
    by_cases hd : d.Active
    · obtain rfl := (hinv.one i c hi hactive).2 j d hj hd
      obtain rfl := mem_unique hi hj
      rw [hphase] at hok ⊢
      exact hok
    · rw [not_not.mp hd]
      trivial
  have hcalls : (y.clear c.gen).campaigns = y.campaigns ∧ (y.clear c.gen).gens = y.gens := by
    unfold Sys.clear
    split_ifs
    · exact ⟨rfl, rfl⟩
    · exact ⟨rfl, rfl⟩
  exact hcleared.setCampaign (hcalls.1 ▸ hi) hactive (hcalls.2 ▸ hn) rfl trivial

/-- `endCampaign`. -/
theorem Inv.finish (hi : y.campaigns[i]? = some c) (hactive : c.Active)
    (hn : y.gens[c.gen]? = some g) :
    Inv cfg h { y.setCampaign i { c with phase := .returned } with campaigning := false } := by
  have hreturned : Inv cfg h (y.setCampaign i { c with phase := .returned }) :=
    hinv.setCampaign hi hactive hn rfl trivial
  refine ⟨fun j d hj hd => ?_, hreturned.campaigns, hreturned.resigns, hreturned.current,
    hreturned.published, hreturned.lost, hreturned.settled, hreturned.started⟩
  -- The call that was running has returned: there is no other.
  rcases getElem?_set_cases hj with ⟨rfl, rfl⟩ | ⟨hij, hj⟩
  · exact absurd rfl hd
  · exact absurd ((hinv.one i c hi hactive).2 j d hj hd) hij

/-- **Every step of a `Campaign` keeps the invariant.** -/
theorem Inv.stepCampaign (hi : y.campaigns[i]? = some c) (hn : y.gens[c.gen]? = some g)
    {a : CampaignAct} (hs : stepCampaign cfg y i c g a = some y') :
    Inv cfg (⟨y, .campaign i a, y'⟩ :: h) y' := by
  replace hinv : Inv cfg (⟨y, .campaign i a, y'⟩ :: h) y :=
    hinv.past (fun _ hev => nomatch hev.1) nofun
  have hactive : ∀ {phase : CampaignPhase}, c.phase = phase → phase ≠ .returned → c.Active :=
    Campaign.active_of_phase
  cases a with
  | check =>
    obtain ⟨hphase, ⟨⟩⟩ := ite_none_right_eq_some.mp hs
    split_ifs at hinv ⊢ with hgone
    · exact hinv.setCampaign hi (hactive hphase nofun) hn rfl
        (.inl (hinv.phaseOk hi hn hphase).2.2)
    · have hok := hinv.phaseOk hi hn hphase
      exact hinv.setCampaign hi (hactive hphase nofun) hn rfl hok
  | grant lease ttl =>
    obtain ⟨hphase, hs⟩ := ite_none_right_eq_some.mp hs
    obtain ⟨hpending, hidle, -⟩ := hinv.phaseOk hi hn hphase
    cases lease with
    | none =>
      cases hs
      exact hinv.fail hi (hactive hphase nofun) hn
    | some leaseID =>
      dsimp only at hs
      split_ifs at hs <;> cases hs
      · exact hinv.fail hi (hactive hphase nofun) hn
      · refine hinv.moves hi (hactive hphase nofun) hn rfl
          (.inr ⟨hpending.current_eq, hpending.free⟩) (hinv.published c.gen g hn) id ?_
        cases ttl with
        | true => exact ⟨⟨hpending.current_eq, hpending.published, hpending.free⟩, hidle⟩
        | false => trivial
  | session | elect | proclaim =>
    obtain ⟨hphase, ⟨⟩⟩ := ite_none_right_eq_some.mp hs
    have hok := hinv.phaseOk hi hn hphase
    exact hinv.orFail hi (hactive hphase nofun) hn hok
  | snapshot read =>
    obtain ⟨hphase, hs⟩ := ite_none_right_eq_some.mp hs
    obtain ⟨hpending, hidle⟩ := hinv.phaseOk hi hn hphase
    cases read with
    | none =>
      cases hs
      exact hinv.fail hi (hactive hphase nofun) hn
    | some _ =>
      dsimp only at hs
      split_ifs at hs <;> cases hs
      · exact hinv.moves hi (hactive hphase nofun) hn rfl (.inl rfl) (hinv.published c.gen g hn) id
          ⟨⟨hpending.current_eq, hpending.published, hpending.free⟩, hidle⟩
      · exact hinv.fail hi (hactive hphase nofun) hn
  | watch =>
    obtain ⟨hphase, ⟨⟩⟩ := ite_none_right_eq_some.mp hs
    obtain ⟨hpending, hidle⟩ := hinv.phaseOk hi hn hphase
    refine hinv.moves hi (hactive hphase nofun) hn rfl (.inl rfl)
      (fun _ hpub => nomatch hpending.published.symm.trans hpub) (fun hlost => ?_)
      ⟨⟨hpending.current_eq, hpending.published, hpending.free⟩, fun hsent => hsent.elim⟩
    rw [hidle] at hlost
    exact hlost.elim
  | wait w =>
    obtain ⟨hphase, hs⟩ := ite_none_right_eq_some.mp hs
    obtain ⟨hpending, hterm⟩ := hinv.phaseOk hi hn hphase
    cases w with
    | created =>
      obtain ⟨ok, hcreated, rfl⟩ := map_eq_some_iff.mp hs
      refine hinv.moves hi (hactive hphase nofun) hn rfl (.inl rfl) (hinv.published c.gen g hn) id
        ?_
      cases ok with
      | true => exact ⟨⟨hpending.current_eq, hpending.published, hpending.free⟩, hterm⟩
      | false => trivial
    | terminal =>
      obtain ⟨-, ⟨⟩⟩ := ite_none_right_eq_some.mp hs
      exact hinv.moves hi (hactive hphase nofun) hn rfl (.inl rfl) (hinv.published c.gen g hn) id
        trivial
    | context =>
      obtain ⟨-, ⟨⟩⟩ := ite_none_right_eq_some.mp hs
      exact hinv.fail hi (hactive hphase nofun) hn
  | publish detached =>
    obtain ⟨hphase, hs⟩ := ite_none_right_eq_some.mp hs
    obtain ⟨hpending, hterm⟩ := hinv.phaseOk hi hn hphase
    split_ifs at hs with hgone hterminal hdetached <;> cases hs
    · exact hinv.fail hi (hactive hphase nofun) hn
    · exact hinv.moves hi (hactive hphase nofun) hn rfl (.inl rfl) (hinv.published c.gen g hn) id
        trivial
    · -- There is no error in `terminal`: the monitor has not sent one yet.
      have hlost : ¬g.monitor.Lost := fun hlost => hterminal (hterm hlost.sent)
      exact hinv.moves hi (hactive hphase nofun) hn rfl (.inl rfl)
        (fun _ _ => ⟨hlost, hpending.free⟩) id trivial
    · exact hinv.moves hi (hactive hphase nofun) hn rfl (.inl rfl) (hinv.published c.gen g hn) id
        trivial
  | clean a =>
    simp only [Etcd.stepCampaign] at hs
    split at hs
    · next p hphase =>
      obtain ⟨⟨g', p'⟩, hclean, rfl⟩ := map_eq_some_iff.mp hs
      obtain ⟨hlease, hpub, hmonitor, hterminal⟩ := (stepClean_proved hclean).1
      refine hinv.moves hi (hactive hphase nofun) hn rfl (.inl hlease) ?_ ?_ ?_
      · rw [hpub, hmonitor]
        exact hinv.published c.gen g hn
      · rw [hmonitor]
        exact id
      · cases p' with
        | proved =>
          refine settled_of_stepClean hclean ?_ hn rfl
          rw [cleans, hi]
          rfl
        | _ => trivial
    · cases hs
  | clear =>
    obtain ⟨hphase, ⟨⟩⟩ := ite_none_right_eq_some.mp hs
    exact hinv.clearCampaign hi hn hphase
  | finish =>
    obtain ⟨hphase | hphase, ⟨⟩⟩ := ite_none_right_eq_some.mp hs
    · exact hinv.finish hi (hactive hphase nofun) hn
    · exact hinv.finish hi (hactive hphase nofun) hn

/-- A monitor that is running moves on. -/
theorem Inv.setMonitor (hn : y.gens[n]? = some g) {m : Monitor} (hmonitor : g.monitor = m)
    (hidle : m ≠ .idle) (hlease : g'.leaseID = g.leaseID)
    (hpub : y.current = some n → g'.published = true → ¬g'.monitor.Lost ∧ g.published = true)
    (hlost : m.Lost → g'.monitor.Lost)
    (hterm : (m.Sent → g.terminal = true) → g'.monitor.Sent → g'.terminal = true) :
    Inv cfg h (y.setGen n g') := by
  subst hmonitor
  exact hinv.setGen hn hlease hpub hlost (fun h => absurd h hidle) hterm

/-- **Every step of a monitor keeps the invariant.** -/
theorem Inv.stepMonitor (hn : y.gens[n]? = some g) {a : MonitorAct}
    (hs : stepMonitor y n g a = some y') : Inv cfg (⟨y, .monitor n a, y'⟩ :: h) y' := by
  have hquiet : ∀ {z : Sys}, a ≠ .lose → Inv cfg h z → Inv cfg (⟨y, .monitor n a, z⟩ :: h) z :=
    fun hne hz => hz.past (fun _ hev => nomatch hev.1) fun _ hev =>
      absurd (Label.monitor.inj hev).2 hne
  cases a with
  | created =>
    obtain ⟨hmonitor, ⟨⟩⟩ := ite_none_right_eq_some.mp hs
    refine hquiet nofun (hinv.setMonitor hn hmonitor nofun rfl ?_ id fun _ hsent => hsent.elim)
    exact fun _ hpub => ⟨id, hpub⟩
  | fail =>
    simp only [Etcd.stepMonitor] at hs
    split at hs
    · next hmonitor =>
      cases hs
      refine hquiet nofun (hinv.setMonitor hn hmonitor nofun rfl ?_ id fun _ hsent => hsent.elim)
      exact fun _ hpub => ⟨id, hpub⟩
    · cases hs
  | terminate =>
    obtain ⟨hmonitor, ⟨⟩⟩ := ite_none_right_eq_some.mp hs
    refine hquiet nofun (hinv.setMonitor hn hmonitor nofun rfl ?_ id fun _ _ => rfl)
    exact fun _ hpub => ⟨id, hpub⟩
  | lose =>
    obtain ⟨hmonitor, ⟨⟩⟩ := ite_none_right_eq_some.mp hs
    have hset : Inv cfg h (y.setGen n { g with
        monitor := .stopping
        published := if y.current = some n then false else g.published }) := by
      refine hinv.setMonitor hn hmonitor nofun rfl (fun hcur hpub => ?_) (fun _ => trivial)
        fun hterm _ => hterm trivial
      rw [if_pos hcur] at hpub
      exact nomatch hpub
    refine hset.past (fun _ hev => nomatch hev.1) fun k hk => ?_
    cases hk
    exact ⟨_, getElem?_set_of_some hn, trivial⟩
  | shutdown =>
    obtain ⟨hmonitor, ⟨⟩⟩ := ite_none_right_eq_some.mp hs
    refine hquiet nofun (hinv.setMonitor hn hmonitor nofun rfl (fun hcur hpub => ?_)
      (fun _ => trivial) fun hterm _ => hterm trivial)
    exact absurd (hmonitor ▸ trivial) (hinv.published n g hn hcur hpub).1
  | finish =>
    obtain ⟨⟨hmonitor, -⟩, ⟨⟩⟩ := ite_none_right_eq_some.mp hs
    refine hquiet nofun (hinv.setMonitor hn hmonitor nofun rfl (fun hcur hpub => ?_)
      (fun _ => trivial) fun hterm _ => hterm trivial)
    exact absurd (hmonitor ▸ trivial) (hinv.published n g hn hcur hpub).1

/-- `clearGeneration`, at the end of a `Resign`. -/
theorem Inv.clearResign {j : ℕ} {r : Resign} (hj : y.resigns[j]? = some r)
    (hphase : r.phase = .cleaning .proved) :
    Inv cfg h ((y.clear r.gen).setResign j { r with phase := .leaving }) := by
  obtain ⟨htaken, g₀, hg₀, hproved⟩ := hinv.resigns j r hj
  have hcleared : Inv cfg h (y.clear r.gen) := by
    refine hinv.clear (fun g' hg' => ?_) fun i c g' _ hcur hok => hok.of_taken hcur htaken
    exact mem_unique hg₀ hg' ▸ hproved hphase
  have hresigns : (y.clear r.gen).resigns = y.resigns := by
    unfold Sys.clear
    split_ifs
    · rfl
    · rfl
  have hj' : (y.clear r.gen).resigns[j]? = some r := hresigns ▸ hj
  exact hcleared.setResign hj' rfl fun hp => nomatch hp

/-- **Every step of a `Resign` keeps the invariant.** -/
theorem Inv.stepResign {j : ℕ} {r : Resign} (hj : y.resigns[j]? = some r)
    (hn : y.gens[r.gen]? = some g) {a : ResignAct} (hs : stepResign cfg y j r g a = some y') :
    Inv cfg (⟨y, .resign j a, y'⟩ :: h) y' := by
  replace hinv : Inv cfg (⟨y, .resign j a, y'⟩ :: h) y :=
    hinv.past (fun _ hev => nomatch hev.1) nofun
  cases a with
  | lock =>
    obtain ⟨-, ⟨⟩⟩ := ite_none_right_eq_some.mp hs
    have htouch : Inv cfg _ (y.setGen r.gen { g with cleaning := true }) :=
      hinv.touch hn ⟨rfl, rfl, rfl, rfl⟩
    exact htouch.setResign hj rfl nofun
  | check =>
    obtain ⟨-, ⟨⟩⟩ := ite_none_right_eq_some.mp hs
    refine hinv.setResign hj rfl fun hp => ?_
    split_ifs at hp
    · exact nomatch ResignPhase.cleaning.inj hp
  | clean a =>
    simp only [Etcd.stepResign] at hs
    split at hs
    · obtain ⟨⟨g', p'⟩, hclean, rfl⟩ := map_eq_some_iff.mp hs
      refine (hinv.touch hn (stepClean_proved hclean).1).setResign hj rfl fun hproved gk hgk => ?_
      obtain rfl := mem_unique hgk (getElem?_set_of_some hn)
      refine settled_of_stepClean hclean ?_ hn (ResignPhase.cleaning.inj hproved)
      rw [cleans, hj]
      rfl
    · cases hs
  | clear =>
    obtain ⟨hphase, ⟨⟩⟩ := ite_none_right_eq_some.mp hs
    exact hinv.clearResign hj hphase
  | leave =>
    obtain ⟨-, ⟨⟩⟩ := ite_none_right_eq_some.mp hs
    have htouch : Inv cfg _ (y.setGen r.gen { g with cleaning := false }) :=
      hinv.touch hn ⟨rfl, rfl, rfl, rfl⟩
    exact htouch.setResign hj rfl nofun

theorem Inv.detach (hi : y.campaigns[i]? = some c) :
    Inv cfg h (y.setCampaign i { c with attached := false }) := by
  have hsame : ∀ {j : ℕ} {d : Campaign},
      (y.setCampaign i { c with attached := false }).campaigns[j]? = some d →
      ∃ d', y.campaigns[j]? = some d' ∧ d'.gen = d.gen ∧ d'.phase = d.phase := by
    intro j d hj
    rcases getElem?_set_cases hj with ⟨rfl, rfl⟩ | ⟨-, hj⟩
    · exact ⟨c, hi, rfl, rfl⟩
    · exact ⟨d, hj, rfl, rfl⟩
  refine ⟨fun j d hj hd => ?_, fun j d hj => ?_, hinv.resigns, hinv.current, hinv.published,
    hinv.lost, hinv.settled, hinv.started⟩
  · obtain ⟨d', hd', -, hphase⟩ := hsame hj
    obtain ⟨hcampaigning, hunique⟩ := hinv.one j d' hd' fun hret => hd (hphase.symm.trans hret)
    refine ⟨hcampaigning, fun k e hk he => ?_⟩
    obtain ⟨e', he', -, hphase'⟩ := hsame hk
    exact hunique k e' he' fun hret => he (hphase'.symm.trans hret)
  · obtain ⟨d', hd', hgen, hphase⟩ := hsame hj
    rw [← hgen, ← hphase]
    exact hinv.campaigns j d' hd'

/-! ### Beginning and resigning -/

end

/-- **`beginCampaign` starts a generation when nothing is running.** -/
theorem Inv.begin (hinv : Inv cfg h y) : Inv cfg h (begin y) := by
  unfold Etcd.begin
  split_ifs with hbusy
  · exact hinv
  have hidle : y.campaigning = false := Bool.eq_false_iff.mpr fun hc => hbusy (.inl hc)
  have hcur : y.current = none := not_not.mp fun hne => hbusy (.inr hne)
  have hinactive : ∀ {j : ℕ} {d : Campaign}, y.campaigns[j]? = some d → d.phase = .returned := by
    intro j d hj
    by_contra hd
    exact absurd ((hinv.one j d hj hd).1.symm.trans hidle) Bool.false_ne_true.symm
  have hfresh : ∀ {P : Ev → Prop}, (∀ ev, P ev → Takes y.gens.length ev ∨ Loses y.gens.length ev) →
      ¬∃ ev ∈ h, P ev := by
    rintro P hP ⟨ev, hmem, hev⟩
    exact absurd (hinv.started _ ⟨ev, hmem, hP ev hev⟩) (lt_irrefl _)
  refine ⟨fun j d hj hd => ?_, fun j d hj => ?_, fun j r hj => ?_, fun k hk => ?_,
    fun k gk hk hnew hpub => ?_, forall_getElem?_concat hinv.lost fun hloses => ?_,
    fun k gk hk hne => ?_, fun k hk => ?_⟩
  · refine ⟨rfl, fun k e hk he => ?_⟩
    rcases getElem?_concat hj with hj | ⟨rfl, -⟩
    · exact absurd (hinactive hj) hd
    · rcases getElem?_concat hk with hk | ⟨rfl, -⟩
      · exact absurd (hinactive hk) he
      · rfl
  · rcases getElem?_concat hj with hj | ⟨-, rfl⟩
    · obtain ⟨gk, hgk, -⟩ := hinv.campaigns j d hj
      rw [hinactive hj]
      exact ⟨gk, getElem?_concat_of_some hgk, trivial⟩
    · refine ⟨{}, getElem?_concat_length, ⟨rfl, rfl, ?_⟩, rfl, rfl⟩
      exact hfresh fun ev hev => .inl hev
  · obtain ⟨htaken, gk, hgk, hproved⟩ := hinv.resigns j r hj
    exact ⟨htaken, gk, getElem?_concat_of_some hgk, hproved⟩
  · cases hk
    exact ⟨{}, getElem?_concat_length⟩
  · rcases getElem?_concat hk with hk | ⟨rfl, rfl⟩
    · cases hnew
      exact absurd (List.getElem?_eq_some_iff.mp hk).1 (lt_irrefl _)
    · exact nomatch hpub
  · exact absurd hloses (hfresh fun ev hev => .inr hev)
  · rcases getElem?_concat hk with hk | ⟨rfl, rfl⟩
    · exact hinv.settled k gk hk (hcur ▸ nofun)
    · exact absurd rfl hne
  · refine (hinv.started k hk).trans ?_
    rw [length_append]
    exact Nat.lt_succ_self _

theorem takes_eq_some {y : Sys} (ht : takes y = some (n, g)) :
    y.current = some n ∧ y.gens[n]? = some g ∧ ¬(y.campaigning = true ∧ g.published = false) := by
  obtain ⟨k, hcur, ht⟩ := bind_eq_some_iff.mp ht
  obtain ⟨g₀, hg₀, ht⟩ := bind_eq_some_iff.mp ht
  obtain ⟨hfree, ⟨⟩⟩ := ite_none_left_eq_some.mp ht
  exact ⟨hcur, hg₀, hfree⟩

/-- **A `Resign` takes a generation that no `Campaign` is about to publish.** -/
theorem Inv.take (hinv : Inv cfg h y) : Inv cfg (⟨y, .take, take y⟩ :: h) (take y) := by
  cases ht : takes y with
  | none =>
    have hsame : Etcd.take y = y := by rw [Etcd.take, ht]
    rw [hsame]
    refine hinv.past (fun k hk => ?_) nofun
    have hnone := hk.2
    rw [ht] at hnone
    exact nomatch hnone
  | some r =>
    obtain ⟨n, g⟩ := r
    obtain ⟨hcur, hn, hfree⟩ := takes_eq_some ht
    have hy' : Etcd.take y =
        { y.setGen n { g with published := false } with
          resigns := y.resigns ++ [⟨n, .taken⟩] } := by
      rw [Etcd.take, ht]
    have hnot : ∀ {k : ℕ}, k ≠ n → ¬Takes k ⟨y, .take, Etcd.take y⟩ := by
      intro k hne hk
      have hk' := hk.2
      rw [ht] at hk'
      exact hne (Option.some.inj hk').symm
    -- A `Campaign` that is about to publish would be running, and has not published.
    have hpending : ∀ {i : ℕ} {c : Campaign}, y.campaigns[i]? = some c → c.Active →
        ¬Pending h y.current n g := fun hi hactive hp =>
      hfree ⟨(hinv.one _ _ hi hactive).1, hp.published⟩
    have hset : Inv cfg h (y.setGen n { g with published := false }) :=
      hinv.setGen hn rfl nofun id id id
    rw [hy']
    refine ⟨hset.one, fun i c hi => ?_, fun j r hj => ?_, hset.current,
      fun k gk hk hcur' hpub => ?_, fun k gk hk hloses => ?_,
      fun k gk hk hne => (hset.settled k gk hk hne).cons, fun k hk => ?_⟩
    · obtain ⟨gk, hgk, hok⟩ := hinv.campaigns i c hi
      by_cases hgen : c.gen = n
      · rw [hgen] at hgk hok ⊢
        obtain rfl := mem_unique hn hgk
        refine ⟨_, getElem?_set_of_some hn, hok.settle (fun hret => hpending hi hret) ?_⟩
        exact fun hs => Settled.cons hs
      · exact ⟨gk, (getElem?_set_ne (Ne.symm hgen)).trans hgk, hok.cons (hnot hgen)⟩
    · rcases getElem?_concat hj with hj | ⟨-, rfl⟩
      · obtain ⟨htaken, gk, hgk, hproved⟩ := hset.resigns j r hj
        exact ⟨exists_mem_cons_of_exists htaken, gk, hgk, fun hp => (hproved hp).cons⟩
      · refine ⟨⟨_, mem_cons_self, rfl, ?_⟩, _, getElem?_set_of_some hn, fun hp => ?_⟩
        · rw [ht]
          rfl
        · exact nomatch hp
    · rcases getElem?_set_cases hk with ⟨rfl, rfl⟩ | ⟨hne, -⟩
      · exact nomatch hpub
      · exact absurd (mem_unique hcur' hcur) hne
    · exact hset.lost k gk hk ((exists_mem_cons_iff nofun).mp hloses)
    · rcases or_exists_of_exists_mem_cons hk with (htake | hlose) | hold
      · by_cases hkn : k = n
        · rw [hkn]
          exact (List.getElem?_eq_some_iff.mp hn).1.trans_eq (length_set).symm
        · exact absurd htake (hnot hkn)
      · exact nomatch hlose
      · exact hset.started k hold

/-- **Every step keeps the invariant.** -/
theorem Inv.step {l : Label} (hinv : Inv cfg h y) (hs : step cfg y l = some y') :
    Inv cfg (⟨y, l, y'⟩ :: h) y' := by
  cases l with
  | begin =>
    cases hs
    exact hinv.begin.past (fun _ hev => nomatch hev.1) nofun
  | campaign i a =>
    obtain ⟨c, hi, hs⟩ := bind_eq_some_iff.mp hs
    obtain ⟨g, hn, hs⟩ := bind_eq_some_iff.mp hs
    exact hinv.stepCampaign hi hn hs
  | giveUp i =>
    obtain ⟨c, hi, hs⟩ := bind_eq_some_iff.mp hs
    obtain ⟨g, hn, hs⟩ := bind_eq_some_iff.mp hs
    obtain ⟨-, hs⟩ := ite_none_right_eq_some.mp hs
    have htouch : Inv cfg h (y.setGen c.gen { g with cancelled := true }) :=
      hinv.touch hn ⟨rfl, rfl, rfl, rfl⟩
    cases hs
    exact (htouch.detach hi).past (fun _ hev => nomatch hev.1) nofun
  | take =>
    cases hs
    exact hinv.take
  | resign j a =>
    obtain ⟨r, hj, hs⟩ := bind_eq_some_iff.mp hs
    obtain ⟨g, hn, hs⟩ := bind_eq_some_iff.mp hs
    exact hinv.stepResign hj hn hs
  | monitor n a =>
    obtain ⟨g, hn, hs⟩ := bind_eq_some_iff.mp hs
    exact hinv.stepMonitor hn hs
  | shut n =>
    obtain ⟨g, hn, hs⟩ := bind_eq_some_iff.mp hs
    obtain ⟨-, hs⟩ := ite_none_right_eq_some.mp hs
    have htouch : Inv cfg h (y.setGen n { g with shut := true }) :=
      hinv.touch hn ⟨rfl, rfl, rfl, rfl⟩
    cases hs
    exact htouch.past (fun _ hev => nomatch hev.1) nofun

end Steps

/-! ### Runs -/

section Runs

variable {cfg : Config} {h : List Ev} {y : Sys}

theorem inv_of_run (hr : Run (step cfg) {} h y) : Inv cfg h y := by
  induction hr with
  | nil =>
    refine ⟨fun i c hi => (nomatch hi), fun i c hi => (nomatch hi), fun j r hj => (nomatch hj),
      fun n hn => (nomatch hn), fun n g hn => (nomatch hn), fun n g hn => (nomatch hn),
      fun n g hn => (nomatch hn), ?_⟩
    rintro n ⟨ev, hmem, -⟩
    exact nomatch hmem
  | snoc _ hs ih => exact ih.step hs

/-- `IsLeader` is true on account of some generation. -/
theorem isLeader_iff : y.isLeader = true ↔ ∃ n, LeaderBy y n := by
  unfold Sys.isLeader
  rw [Option.any_eq_true]
  refine exists_congr fun n => and_congr_right fun _ => ?_
  rw [Option.any_eq_true]
  refine exists_congr fun g => and_congr_right fun _ => ?_
  rw [Bool.and_eq_true, Bool.not_eq_true']

/-- **No generation that was lost is revived.** A generation that its monitor or a `Resign` has
taken back is never again the reason why `IsLeader` is true; at most one generation is; and when a
generation is started no `Campaign` is running, and each earlier generation has no lease, or its
lease was revoked without an error, or its key was read as absent or replaced. -/
theorem generations_sound (hr : Run (step cfg) {} h y) :
    (∀ n, (∃ ev ∈ h, Loses n ev ∨ Takes n ev) → ¬LeaderBy y n) ∧
    (∀ m n, LeaderBy y m → LeaderBy y n → m = n) ∧
    Always (fun older ev => ev.label = .begin → ev.before.gens.length < ev.after.gens.length →
      (∀ c ∈ ev.before.campaigns, ¬c.Active) ∧
      ∀ (n : ℕ) (g : Gen), ev.before.gens[n]? = some g →
        g.leaseID = 0 ∨ ∃ ev' ∈ older, Proves cfg n ev') h := by
  refine ⟨?_, ?_, ?_⟩
  · rintro n ⟨ev, hmem, hev⟩ ⟨hcur, g, hg, hpub, -⟩
    have hinv := inv_of_run hr
    obtain ⟨hnot, hfree⟩ := hinv.published n g hg hcur hpub
    rcases hev with hloses | htakes
    · exact hnot (hinv.lost n g hg ⟨ev, hmem, hloses⟩)
    · exact hfree ⟨ev, hmem, htakes⟩
  · rintro m n ⟨hm, -⟩ ⟨hn, -⟩
    exact mem_unique hm hn
  · refine hr.always (I := Run (step cfg) {}) .nil (fun h y l y' hr hs => .snoc hr hs) ?_
    rintro h y l y' hr hs rfl hlt
    have hinv := inv_of_run hr
    cases hs
    have hfree : ¬(y.campaigning = true ∨ y.current ≠ none) := by
      intro hbusy
      rw [Etcd.begin, if_pos hbusy] at hlt
      exact lt_irrefl _ hlt
    refine ⟨fun c hc hactive => ?_, fun n g hg => ?_⟩
    · obtain ⟨i, hi⟩ := mem_iff_getElem?.mp hc
      exact hfree (.inl (hinv.one i c hi hactive).1)
    · refine hinv.settled n g hg fun hcur => hfree (.inr ?_)
      rw [hcur]
      exact nofun

def leads (i : ℕ) : List Label :=
  [.begin, .campaign i .check, .campaign i (.grant (some 7) true), .campaign i (.session true),
    .campaign i (.elect true), .campaign i (.proclaim true),
    .campaign i (.snapshot (some ⟨ascii "k", 3, 4⟩)), .campaign i .watch, .monitor i .created,
    .campaign i (.wait .created), .campaign i (.publish true), .campaign i .finish]

/-- The leader's lease is lost while it resigns, its revocation fails, the key is gone, and a second
generation becomes the leader. -/
theorem generations_sound_again : ∃ h y, Run (step ⟨ascii "t", fun _ => ascii "k"⟩) {} h y ∧
    (∃ ev ∈ h, ev.label = .monitor 0 .lose) ∧ LeaderBy y 1 ∧ ¬LeaderBy y 0 := by
  obtain ⟨h, y, hr, ⟨ev, hmem, hev⟩, hcur, hleader⟩ :=
    exists_run (step ⟨ascii "t", fun _ => ascii "k"⟩) {}
      (leads 0 ++ [.take, .monitor 0 .fail, .monitor 0 .terminate, .monitor 0 .lose,
        .monitor 0 .shutdown, .shut 0, .monitor 0 .finish, .resign 0 .lock, .resign 0 .check,
        .resign 0 (.clean .shutdown), .resign 0 (.clean .join), .resign 0 (.clean (.revoke false)),
        .resign 0 (.clean (.read (some (some [])))), .resign 0 .clear, .resign 0 .leave] ++ leads 1)
      (fun h y => (∃ ev ∈ h, ev.label = .monitor 0 .lose) ∧ y.current = some 1 ∧
        y.isLeader = true) (by decide +kernel)
  obtain ⟨n, hn⟩ := isLeader_iff.mp hleader
  obtain rfl : n = 1 := mem_unique hn.1 hcur
  exact ⟨h, y, hr, ⟨ev, hmem, hev⟩, hn, (generations_sound hr).1 0 ⟨ev, hmem, .inl hev⟩⟩

end Runs

end Bluetape.Leader.Etcd
