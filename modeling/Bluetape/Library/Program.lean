import Bluetape.Library.Run

/-!
# Programs of atomic actions

A **program** (`Conc.Prog`) ends with a result, or does an atomic action and goes on with the
answer, or goes on at a labelled place. The last is for loops: the program at a label is
looked up (`Conc.Machine.body`), so a program is a finite tree although it may run forever.
Programs compose (`Conc.Prog.bind`), so that a function of several actions can be written,
and reasoned about, by itself.

What an action does to the shared state is given by a **machine** (`Conc.Machine`): from the
time, the shared state and a choice of the environment, the answer and the next state, or
nothing if the action has to wait. Two things can be asked of a machine.

* **Any number of programs at once** (`Conc.Pool`): a step begins a call, or runs the next
  action of one thread, or is a step of the environment. What holds in every run follows
  from an outline (`Conc.Outline`): each thread is given a ghost, which moves with the
  actions of the thread as a protocol says; every program follows the protocol
  (`Conc.Protocol.wp`, with `Conc.Protocol.wp_bind` for composed programs); and the invariant,
  which is about the shared state and the ghosts only, survives each action that the protocol
  allows. So a program is looked at once, and an action once, and never both together
  (`Conc.Outline.Valid.step`).
* **One program among others** (`Conc.Exec`): before each action the shared state may change
  as a relation says. The rule (`Conc.Exec.rule`) is the same with one ghost, and asks that
  the relation keeps what the ghost knows.
-/

namespace Conc

open Option List

/-! ### Programs -/

/-- **A program**: actions `A` with answers `R`, places `L` to go on at, results `ρ`. -/
inductive Prog (A : Type) (R : A → Type) (L ρ : Type) : Type where
  | done (r : ρ)
  /-- It does an action and goes on with the answer. -/
  | act (a : A) (k : R a → Prog A R L ρ)
  | goto (l : L)

variable {A : Type} {R : A → Type} {L ρ τ : Type}

namespace Prog

/-- First one program, then another with its result. Going on at a label is final. -/
def bind : Prog A R L ρ → (ρ → Prog A R L τ) → Prog A R L τ
  | .done r, f => f r
  | .act a k, f => .act a fun x => (k x).bind f
  | .goto l, _ => .goto l

instance instMonad : Monad (Prog A R L) where
  pure := .done
  bind := .bind

/-- The program of one action. -/
def call (a : A) : Prog A R L (R a) := .act a .done

end Prog

/-! ### Protocols -/

/-- **What a thread may do**, in terms of its ghost: which actions are allowed, and how the
ghost moves when an action is answered, at a time and in a shared state. An answer after which
it cannot move does not come. -/
structure Protocol (A : Type) (R : A → Type) (S G : Type) where
  allowed : G → A → Prop
  move : ℕ → S → G → (a : A) → R a → G → Prop

variable {S G : Type}

namespace Protocol

/-- **The program follows the protocol**: its actions are allowed, whatever the answers are;
where it goes on at a label the ghost is as `J` says, and where it ends as `Q` says. -/
def wp (P : Protocol A R S G) (J : L → G → Prop) (Q : ρ → G → Prop) : Prog A R L ρ → G → Prop
  | .done r, g => Q r g
  | .act a k, g => P.allowed g a ∧ ∀ t s x g', P.move t s g a x g' → P.wp J Q (k x) g'
  | .goto l, g => J l g

variable {P : Protocol A R S G} {J : L → G → Prop} {g : G} {p : Prog A R L ρ}

/-- **One program after another.** -/
theorem wp_bind {Q : τ → G → Prop} {f : ρ → Prog A R L τ}
    (h : P.wp J (fun r g => P.wp J Q (f r) g) p g) : P.wp J Q (p >>= f) g := by
  induction p generalizing g with
  | done r => exact h
  | act a k ih => exact ⟨h.1, fun t s x g' hmove => ih x (h.2 t s x g' hmove)⟩
  | goto l => exact h

/-- A program that follows the protocol ends with less. -/
theorem wp_mono {Q Q' : ρ → G → Prop} (himp : ∀ r g, Q r g → Q' r g) (h : P.wp J Q p g) :
    P.wp J Q' p g := by
  induction p generalizing g with
  | done r => exact himp r g h
  | act a k ih => exact ⟨h.1, fun t s x g' hmove => ih x (h.2 t s x g' hmove)⟩
  | goto l => exact h

variable {Q : ρ → G → Prop}

/-- One program after another, by what the first ends with. -/
theorem wp_bind_of {Q' : τ → G → Prop} {f : ρ → Prog A R L τ} (h : P.wp J Q p g)
    (hf : ∀ r g, Q r g → P.wp J Q' (f r) g) : P.wp J Q' (p >>= f) g :=
  wp_bind (wp_mono hf h)

/-- **One action first.** -/
theorem wp_call_bind {Q : τ → G → Prop} {a : A} {f : R a → Prog A R L τ} (ha : P.allowed g a)
    (h : ∀ t s x g', P.move t s g a x g' → P.wp J Q (f x) g') :
    P.wp J Q (Prog.call a >>= f) g :=
  ⟨ha, h⟩

@[simp] theorem wp_pure {r : ρ} : P.wp J Q (pure r : Prog A R L ρ) g ↔ Q r g := Iff.rfl

@[simp] theorem wp_goto {l : L} : P.wp J Q (.goto l : Prog A R L ρ) g ↔ J l g := Iff.rfl

end Protocol

/-! ### Machines -/

/-- **A machine**: what actions and the environment do, and the programs of calls and labels. -/
structure Machine (A : Type) (R : A → Type) (L ρ S E O C : Type) where
  /-- An action at a time, with a choice of the environment; `none` if it has to wait. -/
  exec : ℕ → S → (a : A) → C → Option (R a × S)
  env : S → E → Option S
  start : O → Prog A R L ρ
  body : L → Prog A R L ρ

variable {E O C : Type}

/-- A call that has begun. -/
structure Thread (A : Type) (R : A → Type) (L ρ O : Type) where
  op : O
  began : ℕ
  prog : Prog A R L ρ

/-- The calls on one shared state, in the order in which they began. Those that have ended
stay. -/
structure Pool (A : Type) (R : A → Type) (L ρ S O : Type) where
  time : ℕ
  shared : S
  threads : List (Thread A R L ρ O)

/-- What happens next. -/
inductive Label (E O C : Type) where
  | begin (op : O)
  | run (i : ℕ) (c : C)
  | jump (i : ℕ)
  | env (e : E)
  deriving DecidableEq, Repr

/-- The next action of a thread. -/
def Prog.next : Prog A R L ρ → Option A
  | .act a _ => some a
  | _ => none

/-- The result of a program that has ended. -/
def Prog.result : Prog A R L ρ → Option ρ
  | .done r => some r
  | _ => none

/-- The action that a label is of. -/
def Pool.action (y : Pool A R L ρ S O) : Label E O C → Option A
  | .run i _ => (y.threads[i]?).bind fun th => th.prog.next
  | _ => none

namespace Machine

variable (M : Machine A R L ρ S E O C)

/-- The next action of a thread is done. -/
def run (y : Pool A R L ρ S O) (i : ℕ) (c : C) (th : Thread A R L ρ O) :
    Option (Pool A R L ρ S O) :=
  match th.prog with
  | .act a k =>
    (M.exec y.time y.shared a c).map fun r =>
      ⟨y.time + 1, r.2, y.threads.set i { th with prog := k r.1 }⟩
  | _ => none

/-- A thread goes on at a label. -/
def jump (y : Pool A R L ρ S O) (i : ℕ) (th : Thread A R L ρ O) : Option (Pool A R L ρ S O) :=
  match th.prog with
  | .goto l => some ⟨y.time + 1, y.shared, y.threads.set i { th with prog := M.body l }⟩
  | _ => none

/-- **One step.** -/
def step (y : Pool A R L ρ S O) : Label E O C → Option (Pool A R L ρ S O)
  | .begin op => some ⟨y.time + 1, y.shared, y.threads ++ [⟨op, y.time, M.start op⟩]⟩
  | .run i c => (y.threads[i]?).bind fun th => M.run y i c th
  | .jump i => (y.threads[i]?).bind fun th => M.jump y i th
  | .env e => (M.env y.shared e).map fun s => ⟨y.time + 1, s, y.threads⟩

variable {M} {y y' : Pool A R L ρ S O} {i : ℕ}

/-- What a step of a thread does. -/
theorem of_step_run {c : C} (h : M.step y (.run i c) = some y') :
    ∃ th a k x s', y.threads[i]? = some th ∧ th.prog = .act a k ∧
      M.exec y.time y.shared a c = some (x, s') ∧
      y' = ⟨y.time + 1, s', y.threads.set i { th with prog := k x }⟩ := by
  obtain ⟨th, hth, hrun⟩ := bind_eq_some_iff.mp h
  unfold Machine.run at hrun
  split at hrun
  next a k hprog =>
    obtain ⟨⟨x, s'⟩, hexec, rfl⟩ := map_eq_some_iff.mp hrun
    exact ⟨th, a, k, x, s', hth, hprog, hexec, rfl⟩
  next => cases hrun

/-- What going on at a label does. -/
theorem of_step_jump (h : M.step y (.jump i) = some y') :
    ∃ th l, y.threads[i]? = some th ∧ th.prog = .goto l ∧
      y' = ⟨y.time + 1, y.shared, y.threads.set i { th with prog := M.body l }⟩ := by
  obtain ⟨th, hth, hjump⟩ := bind_eq_some_iff.mp h
  unfold Machine.jump at hjump
  split at hjump
  next l hprog => exact ⟨th, l, hth, hprog, (Option.some.inj hjump).symm⟩
  next => cases hjump

/-- **Every step takes time.** -/
theorem time_of_step {l : Label E O C} (h : M.step y l = some y') : y'.time = y.time + 1 := by
  cases l with
  | begin op =>
    cases h
    rfl
  | run i c =>
    obtain ⟨th, a, k, x, s', -, -, -, rfl⟩ := of_step_run h
    rfl
  | jump i =>
    obtain ⟨th, l, -, -, rfl⟩ := of_step_jump h
    rfl
  | env e =>
    obtain ⟨s', -, rfl⟩ := map_eq_some_iff.mp h
    rfl

end Machine

/-- Nothing has been called. -/
def Pool.new (s : S) : Pool A R L ρ S O := ⟨0, s, []⟩

/-! ### Outlines -/

/-- **A proof outline**: ghosts for the threads, what the threads do to them, and what is
invariant. -/
structure Outline (A : Type) (R : A → Type) (L ρ S O G : Type) where
  proto : Protocol A R S G
  /-- What holds of the shared state and the ghosts of all threads, at a time. -/
  inv : ℕ → S → List G → Prop
  /-- The ghost of a call that begins at a time. -/
  ghost : O → ℕ → G
  /-- What holds of the ghost of a call at a label. -/
  loop : O → ℕ → L → G → Prop
  /-- What holds of the ghost of a call that has ended. -/
  post : O → ℕ → ρ → G → Prop

/-- **The outline is one of the machine.** -/
structure Outline.Valid (W : Outline A R L ρ S O G) (M : Machine A R L ρ S E O C) : Prop where
  start : ∀ op t, W.proto.wp (W.loop op t) (W.post op t) (M.start op) (W.ghost op t)
  body : ∀ op t l g, W.loop op t l g → W.proto.wp (W.loop op t) (W.post op t) (M.body l) g
  begin : ∀ op t s gs, W.inv t s gs → W.inv (t + 1) s (gs ++ [W.ghost op t])
  idle : ∀ t s gs, W.inv t s gs → W.inv (t + 1) s gs
  env : ∀ t s gs e s', W.inv t s gs → M.env s e = some s' → W.inv (t + 1) s' gs
  act : ∀ t s gs i g a c x s', W.inv t s gs → gs[i]? = some g → W.proto.allowed g a →
    M.exec t s a c = some (x, s') →
    ∃ g', W.proto.move t s g a x g' ∧ W.inv (t + 1) s' (gs.set i g')

namespace Outline

/-- What the outline says of a pool with these ghosts. -/
structure Holds (W : Outline A R L ρ S O G) (y : Pool A R L ρ S O) (gs : List G) : Prop where
  inv : W.inv y.time y.shared gs
  length_eq : gs.length = y.threads.length
  follows : ∀ (i : ℕ) (th : Thread A R L ρ O) (g : G), y.threads[i]? = some th →
    gs[i]? = some g → W.proto.wp (W.loop th.op th.began) (W.post th.op th.began) th.prog g

/-- How the ghosts move in a step. -/
def Moves (W : Outline A R L ρ S O G) (M : Machine A R L ρ S E O C) (y : Pool A R L ρ S O) :
    Label E O C → List G → List G → Prop
  | .begin op, gs, gs' => gs' = gs ++ [W.ghost op y.time]
  | .run i c, gs, gs' => ∃ a g x s' g', y.action (.run i c : Label E O C) = some a ∧
      gs[i]? = some g ∧ W.proto.allowed g a ∧ M.exec y.time y.shared a c = some (x, s') ∧
      W.proto.move y.time y.shared g a x g' ∧ gs' = gs.set i g'
  | .jump _, gs, gs' => gs' = gs
  | .env _, gs, gs' => gs' = gs

variable {W : Outline A R L ρ S O G} {M : Machine A R L ρ S E O C} {y y' : Pool A R L ρ S O}
  {gs : List G}

variable {th : Thread A R L ρ O} {i : ℕ}

/-- A thread that is there has a ghost. -/
theorem Holds.exists_ghost (h : W.Holds y gs) (hth : y.threads[i]? = some th) :
    ∃ g, gs[i]? = some g := by
  have hlt : i < gs.length := h.length_eq ▸ (List.getElem?_eq_some_iff.mp hth).1
  exact ⟨gs[i], getElem?_eq_getElem hlt⟩

/-- A thread that is about to do an action is allowed to. -/
theorem Holds.allowed (h : W.Holds y gs) {c : C} {a : A}
    (ha : y.action (.run i c : Label E O C) = some a) :
    ∃ g, gs[i]? = some g ∧ W.proto.allowed g a := by
  obtain ⟨th, hth, hnext⟩ := bind_eq_some_iff.mp ha
  obtain ⟨g, hg⟩ := h.exists_ghost hth
  have hwp := h.follows i th g hth hg
  cases hprog : th.prog with
  | act b k =>
    rw [hprog] at hnext hwp
    cases hnext
    exact ⟨g, hg, hwp.1⟩
  | _ =>
    rw [hprog] at hnext
    exact nomatch hnext

/-- What holds of the ghost of a call that has ended. -/
theorem Holds.post (h : W.Holds y gs) {r : ρ} (hth : y.threads[i]? = some th)
    (hr : th.prog.result = some r) : ∃ g, gs[i]? = some g ∧ W.post th.op th.began r g := by
  obtain ⟨g, hg⟩ := h.exists_ghost hth
  have hwp := h.follows i th g hth hg
  cases hprog : th.prog with
  | done r' =>
    rw [hprog] at hr hwp
    cases hr
    exact ⟨g, hg, hwp⟩
  | _ =>
    rw [hprog] at hr
    exact nomatch hr

/-- One thread has moved on, and its ghost with it. -/
theorem Holds.set (h : W.Holds y gs) {s : S} {g : G} {p : Prog A R L ρ}
    (hth : y.threads[i]? = some th) (hinv : W.inv (y.time + 1) s (gs.set i g))
    (hwp : W.proto.wp (W.loop th.op th.began) (W.post th.op th.began) p g) :
    W.Holds ⟨y.time + 1, s, y.threads.set i { th with prog := p }⟩ (gs.set i g) where
  inv := hinv
  length_eq := by rw [length_set, length_set, h.length_eq]
  follows := fun j th' g' hth' hg' => by
    rw [getElem?_set] at hth' hg'
    by_cases hij : i = j
    · subst hij
      obtain ⟨g₀, hg₀⟩ := h.exists_ghost hth
      rw [if_pos rfl, if_pos (List.getElem?_eq_some_iff.mp hth).1] at hth'
      rw [if_pos rfl, if_pos (List.getElem?_eq_some_iff.mp hg₀).1] at hg'
      cases hth'
      cases hg'
      exact hwp
    · rw [if_neg hij] at hth' hg'
      exact h.follows j th' g' hth' hg'

/-- **A step keeps what the outline says**, and moves the ghosts as the protocol says. -/
theorem Valid.step (hW : W.Valid M) (h : W.Holds y gs) {l : Label E O C}
    (hstep : M.step y l = some y') : ∃ gs', W.Holds y' gs' ∧ W.Moves M y l gs gs' := by
  cases l with
  | begin op =>
    cases hstep
    refine ⟨gs ++ [W.ghost op y.time], ⟨hW.begin op _ _ _ h.inv, ?_, ?_⟩, rfl⟩
    · rw [length_append, length_append, h.length_eq]
      rfl
    · intro j th g hth hg
      rw [getElem?_append] at hth hg
      rw [h.length_eq] at hg
      split_ifs at hth hg with hlt
      · exact h.follows j th g hth hg
      · obtain rfl := mem_singleton.mp (mem_of_getElem? hth)
        obtain rfl := mem_singleton.mp (mem_of_getElem? hg)
        exact hW.start op y.time
  | run i c =>
    obtain ⟨th, a, k, x, s', hth, hprog, hexec, rfl⟩ := Machine.of_step_run hstep
    obtain ⟨g, hg⟩ := h.exists_ghost hth
    have hwp := h.follows i th g hth hg
    rw [hprog] at hwp
    obtain ⟨g', hmove, hinv⟩ := hW.act _ _ _ _ _ _ _ _ _ h.inv hg hwp.1 hexec
    refine ⟨gs.set i g', h.set hth hinv (hwp.2 _ _ x g' hmove), a, g, x, s', g', ?_, hg, hwp.1,
      hexec, hmove, rfl⟩
    simp [Pool.action, hth, hprog, Prog.next]
  | jump i =>
    obtain ⟨th, l, hth, hprog, rfl⟩ := Machine.of_step_jump hstep
    obtain ⟨g, hg⟩ := h.exists_ghost hth
    have hwp := h.follows i th g hth hg
    rw [hprog] at hwp
    have hself : gs.set i g = gs := by
      obtain ⟨hlt, rfl⟩ := List.getElem?_eq_some_iff.mp hg
      exact set_getElem_self hlt
    have hinv : W.inv (y.time + 1) y.shared (gs.set i g) := by
      rw [hself]
      exact hW.idle _ _ _ h.inv
    have hset := h.set hth hinv (hW.body _ _ l g hwp)
    rw [hself] at hset
    exact ⟨gs, hset, rfl⟩
  | env e =>
    obtain ⟨s', henv, rfl⟩ := map_eq_some_iff.mp hstep
    exact ⟨gs, ⟨hW.env _ _ _ _ _ h.inv henv, h.length_eq, h.follows⟩, rfl⟩

/-- Of nothing that has been called the outline says its invariant. -/
theorem holds_new {s : S} (hinit : W.inv 0 s []) : W.Holds (.new s) [] :=
  ⟨hinit, rfl, nofun⟩

/-- **What the outline says holds before every step of a run.** -/
theorem Valid.before (hW : W.Valid M) {s : S} (hinit : W.inv 0 s [])
    {h : List (Lts.Event (Pool A R L ρ S O) (Label E O C))}
    (hr : Lts.Run M.step (.new s) h y) : ∀ ev ∈ h, ∃ gs, W.Holds ev.before gs := by
  refine hr.forall_mem (I := fun y => ∃ gs, W.Holds y gs) ⟨[], holds_new hinit⟩ ?_
    fun _ _ _ hy _ => hy
  rintro y l y' ⟨gs, hgs⟩ hstep
  obtain ⟨gs', hgs', -⟩ := hW.step hgs hstep
  exact ⟨gs', hgs'⟩

end Outline

/-! ### One program among others -/

/-- **The executions of one program**, with what it has done: before each of its actions the
shared state may change as `rely` says. -/
inductive Exec (M : Machine A R L ρ S E O C) (rely : S → S → Prop) :
    Prog A R L ρ → S → List (Sigma R) → ρ → S → Prop
  | done {r : ρ} {s : S} : Exec M rely (.done r) s [] r s
  | act {a : A} {k : R a → Prog A R L ρ} {s s₁ s₂ s' : S} {t : ℕ} {c : C} {x : R a}
      {tr : List (Sigma R)} {r : ρ} : rely s s₁ → M.exec t s₁ a c = some (x, s₂) →
      Exec M rely (k x) s₂ tr r s' → Exec M rely (.act a k) s (⟨a, x⟩ :: tr) r s'
  | goto {l : L} {s s' : S} {tr : List (Sigma R)} {r : ρ} :
      Exec M rely (M.body l) s tr r s' → Exec M rely (.goto l) s tr r s'

/-- **The rule for one program among others**: what its ghost knows is not changed by the
others, its own actions move the ghost as the protocol says, and it follows the protocol. What
can be seen of the ghost is what the program has done. -/
theorem Exec.rule {M : Machine A R L ρ S E O C} {rely : S → S → Prop} {P : Protocol A R S G}
    {J : L → G → Prop} {Q : ρ → G → Prop} {I : S → G → Prop} {σ : Type}
    (see : σ → Sigma R → σ) (view : G → σ)
    (hview : ∀ t s g a x g', P.move t s g a x g' → view g' = see (view g) ⟨a, x⟩)
    (hstable : ∀ s s₁ g, I s g → rely s s₁ → I s₁ g)
    (hact : ∀ t s g a c x s', I s g → P.allowed g a → M.exec t s a c = some (x, s') →
      ∃ g', P.move t s g a x g' ∧ I s' g')
    (hbody : ∀ l g, J l g → P.wp J Q (M.body l) g) {p : Prog A R L ρ} {s s' : S}
    {tr : List (Sigma R)} {r : ρ} (h : Exec M rely p s tr r s') {g : G} (hwp : P.wp J Q p g)
    (hI : I s g) : ∃ g', Q r g' ∧ I s' g' ∧ view g' = tr.foldl see (view g) := by
  induction h generalizing g with
  | done => exact ⟨g, hwp, hI, rfl⟩
  | act hrely hexec _ ih =>
    obtain ⟨g', hmove, hI'⟩ := hact _ _ g _ _ _ _ (hstable _ _ g hI hrely) hwp.1 hexec
    obtain ⟨g'', hQ, hI'', hseen⟩ := ih (hwp.2 _ _ _ g' hmove) hI'
    exact ⟨g'', hQ, hI'', by rw [hseen, hview _ _ _ _ _ _ hmove]; rfl⟩
  | goto _ ih => exact ih (hbody _ g hwp) hI

namespace Machine

/-- The program is run by itself, with the given choices; `none` is for going on at a label. -/
def play (M : Machine A R L ρ S E O C) :
    Prog A R L ρ → S → List (Option C) → Option (List (Sigma R) × ρ × S)
  | .done r, s, [] => some ([], r, s)
  | .act a k, s, some c :: cs =>
    (M.exec 0 s a c).bind fun x =>
      (M.play (k x.1) x.2 cs).map fun res => (⟨a, x.1⟩ :: res.1, res.2)
  | .goto l, s, none :: cs => M.play (M.body l) s cs
  | _, _, _ => none

/-- **An execution from an evaluation.** -/
theorem exec_of_play {M : Machine A R L ρ S E O C} {rely : S → S → Prop}
    (hrefl : ∀ s, rely s s) {p : Prog A R L ρ} {s s' : S} {cs : List (Option C)}
    {tr : List (Sigma R)} {r : ρ} (h : M.play p s cs = some (tr, r, s')) :
    Exec M rely p s tr r s' := by
  induction cs generalizing p s tr with
  | nil =>
    cases p with
    | done r' =>
      obtain ⟨rfl, ⟨⟩⟩ := Prod.mk.inj (Option.some.inj h)
      exact .done
    | _ => exact nomatch h
  | cons c cs ih =>
    cases p with
    | done r' => exact nomatch h
    | act a k =>
      cases c with
      | none => exact nomatch h
      | some c =>
        obtain ⟨⟨x, s₁⟩, hexec, hrest⟩ := bind_eq_some_iff.mp h
        obtain ⟨⟨tr', r', s₂⟩, hplay, heq⟩ := map_eq_some_iff.mp hrest
        obtain ⟨rfl, ⟨⟩⟩ := Prod.mk.inj heq
        exact .act (hrefl s) hexec (ih hplay)
    | goto l =>
      cases c with
      | none => exact .goto (ih h)
      | some c => exact nomatch h

/-- An execution whose outcome passes a test. -/
theorem exists_exec_of_play {M : Machine A R L ρ S E O C} {rely : S → S → Prop}
    (hrefl : ∀ s, rely s s) (p : Prog A R L ρ) (s : S) (cs : List (Option C))
    (test : List (Sigma R) → ρ → S → Bool)
    (h : (M.play p s cs).any (fun res => test res.1 res.2.1 res.2.2) = true) :
    ∃ tr r s', Exec M rely p s tr r s' ∧ test tr r s' = true := by
  cases hplay : M.play p s cs with
  | none => exact absurd (hplay ▸ h) (by simp)
  | some res => exact ⟨res.1, res.2.1, res.2.2, exec_of_play hrefl hplay, by simpa [hplay] using h⟩

end Machine

end Conc
