/-
  Popcorn.Bomp.ParallelFor — the loops of parallel regions (lib/libbomp/kmp.c, over
  {processing,omp}.c).

  The function of a region has phases, with a barrier after each but the last (`Part.inFn` has the
  number of barriers ahead). In a phase a member takes its share of every loop of the phase: it
  calls `__kmpc_for_static_init` with its thread number and `bomp_num_threads`, and executes the
  iterations of the bounds it gets (`Executes`), each once and in any order. It leaves the
  phase when it has executed them all. The loop around the share is the compiler's; between the
  loops of one phase nobody waits.

  `log` has the iterations in the order in which they were executed.

  Proved: `loops_complete`: in every interleaving each iteration of a loop is executed once,
  before the region ends and before any iteration of a later phase.
-/

import Popcorn.Bomp.RegionProofs
import Popcorn.Bomp.StaticInit

namespace Popcorn.Bomp

open Popcorn.Lib

/-! ## Loops and shares -/

/-- The arguments of `__kmpc_for_static_init` that are the same for all threads. -/
structure Loop where
  type : LoopType
  sched : SchedType
  lower : Int
  upper : Int
  stride : Int
  incr : Int
  chunk : Int

/-- An `unsigned` that is passed as an `int`. -/
def asInt (n : Nat) : Int := IntType.int32.wrap n

def Loop.bounds (x : Loop) (nthreads gtid : Nat) : Option Bounds :=
  kmpcForStaticInit x.type (asInt nthreads) (asInt gtid) x.sched.code x.lower x.upper x.stride x.incr x.chunk

/-- `i` is one of the loop's values. -/
def Loop.Iterates (x : Loop) (i : Int) : Prop := (∃ q : Nat, i = x.lower + q * x.incr) ∧ Within x.incr i x.upper

/-- The loop can be shared out in a team of `n`. -/
def Loop.Shareable (x : Loop) (n : Nat) : Prop :=
  Valid x.type n x.sched x.lower x.upper x.incr x.chunk ∧ Representable x.type n x.sched x.lower x.upper x.incr x.chunk

/-- The `index`th iteration of the `chunk`th chunk of a member. -/
structure Iteration where
  region : Nat
  phase : Nat
  loop : Nat
  member : Nat
  chunk : Nat
  index : Nat
  value : Int
  deriving DecidableEq, Repr

/-- The threads, and what they have executed. -/
structure Looping where
  team : Team
  log : List Iteration

section
variable (loops : Nat → Nat → List Loop)

/-- The iteration is in its member's share. -/
def Share (nthreads : Nat) (e : Iteration) : Prop :=
  ∃ x b, (loops e.region e.phase)[e.loop]? = some x ∧ x.bounds nthreads e.member = some b ∧
    Executes x.sched b x.upper x.incr e.chunk e.index e.value

/-- Participant `p` has the iteration to execute in the phase it is in. -/
structure Due (s : Team) (p : Nat) (e : Iteration) : Prop where
  phase : s.parts p = .inFn e.phase
  work : s.works p = (e.region, e.member)
  share : Share loops s.numThreads.toNat e

inductive LoopStep (s : Looping) : Act → Looping → Prop
  /-- Who leaves a phase has executed its share. -/
  | team {a : Act} {t : Team} (h : TeamStep s.team a t)
      (hdone : ∀ p e, Due loops s.team p e → t.parts p ≠ s.team.parts p → e ∈ s.log) : LoopStep s a { s with team := t }
  | iterate (p : Nat) (e : Iteration) (hd : Due loops s.team p e) (hnew : e ∉ s.log) : LoopStep s .other { s with log := s.log ++ [e] }

/-- A step that meets the condition on the threads. -/
def LoopRun (s s' : Looping) : Prop := ∃ a, LoopStep loops s a s' ∧ Met s.team a

end

/-! ## What a step does to the members -/

/-- The phases that a member has left; they are counted down. -/
def Part.passed : Part → Nat → Prop
  | .inFn l, k => l < k
  | .waiting l _, k => l ≤ k
  | _, _ => False

/-- A step within a region: nobody passes a phase that it has not been in, and whoever is the last
    to arrive at the region's end finds that all have passed all phases. -/
structure Keeps (s s' : Team) : Prop where
  regions : s'.regions = s.regions
  target : s'.target = s.target
  opened : s.opened ≤ s'.opened
  numThreads : s.opened < s.target → s'.numThreads = s.numThreads
  passed : ∀ p ∈ s'.team, ∀ l ≤ s.region.barriers, (s'.parts p).passed l →
    p ∈ s.team ∧ s'.works p = s.works p ∧ ((s.parts p).passed l ∨ s.parts p = .inFn l)
  finished : s.opened < s.target → s'.opened = s'.target → ∀ i < s.region.size, ∃ p ∈ s.team, s.works p = (s.current, i) ∧
    ∀ l, (s.parts p).passed l

section
variable {s s' : Team} {p : Nat}

/-- One participant goes on as `x`. -/
theorem Keeps.ofPart {x : Part} (hr : s'.regions = s.regions) (ht : s'.target = s.target) (ho : s'.opened = s.opened)
    (hn : s'.numThreads = s.numThreads) (hteam : s'.team = s.team) (hw : s'.works = s.works)
    (hp : s'.parts = Function.update s.parts p x)
    (hx : ∀ l ≤ s.region.barriers, x.passed l → (s.parts p).passed l ∨ s.parts p = .inFn l) : Keeps s s' where
  regions := hr
  target := ht
  opened := Nat.le_of_eq ho.symm
  numThreads _ := hn
  passed := by
    intro q hq l hl hpass
    rw [hteam] at hq
    rw [hp] at hpass
    refine ⟨hq, by rw [hw], ?_⟩
    by_cases hqp : q = p
    · subst hqp
      rw [Function.update_self] at hpass
      exact hx l hl hpass
    · rw [Function.update_of_ne hqp] at hpass
      exact .inl hpass
  finished := by
    intro hlt he
    rw [ho, ht] at he
    exact absurd he (Nat.ne_of_lt hlt)

/-- Nobody goes on. -/
theorem Keeps.same (hr : s'.regions = s.regions) (ht : s'.target = s.target) (ho : s'.opened = s.opened)
    (hn : s'.numThreads = s.numThreads) (hteam : s'.team = s.team) (hw : s'.works = s.works) (hp : s'.parts = s.parts) : Keeps s s' := by
  refine .ofPart (p := 0) (x := s.parts 0) hr ht ho hn hteam hw ?_ fun _ _ h => .inl h
  rw [hp, Function.update_eq_self]

/-- Outside regions there is no team. -/
theorem Keeps.outside (hi : TeamInv s) (hover : s.opened = s.target) (hr : s'.regions = s.regions) (ht : s'.target = s.target)
    (ho : s'.opened = s.opened) (hteam : s'.team = s.team) : Keeps s s' where
  regions := hr
  target := ht
  opened := Nat.le_of_eq ho.symm
  numThreads h := absurd hover (Nat.ne_of_lt h)
  passed := by
    intro q hq
    rw [hteam, (hi.idle hover).1] at hq
    exact absurd hq (Finset.notMem_empty q)
  finished h := absurd hover (Nat.ne_of_lt h)

theorem Keeps.setNumThreads {num : Int32} {created : Nat} (hi : TeamInv s) (hm : s.master = .outside) :
    Keeps s (ompSetNumThreads s num created) := by
  have hover := (hi.at_outside hm).2.1
  unfold ompSetNumThreads
  dsimp only
  split
  · split
    · exact .outside hi hover rfl rfl rfl rfl
    · exact .outside hi hover rfl rfl rfl rfl
  · split
    · exact .outside hi hover rfl rfl rfl rfl
    · split
      · exact .outside hi hover rfl rfl rfl rfl
      · exact .outside hi hover rfl rfl rfl rfl

theorem Keeps.take {j : Nat} {task : Task} {pool : Pool} : Keeps s (s.take j task pool) where
  regions := rfl
  target := rfl
  opened := Nat.le_refl _
  numThreads _ := rfl
  passed := by
    intro q hq l _ hpass
    have hpass : (Function.update s.parts (j + 1) .poolTls q).passed l := hpass
    by_cases hqj : q = j + 1
    · subst hqj
      rw [Function.update_self] at hpass
      exact hpass.elim
    · rw [Function.update_of_ne hqj] at hpass
      exact ⟨Finset.mem_of_mem_insert_of_ne hq hqj, Function.update_of_ne hqj _ _, .inl hpass⟩
  finished h he := absurd he (Nat.ne_of_lt h)

/-- The last member to arrive lets the others go on. -/
theorem Keeps.opens {l : Nat} {v w : Wait} {b : Barrier} (hi : TeamInv s) (hp : s.parts p = .waiting l v)
    (h : WaitStep s.barrier v .opens b w) : Keeps s (s.access p l w .opens b) := by
  obtain ⟨-, rfl, c, rfl, -⟩ := h.opens
  have hw : s.waits p = some (.flip c) := congrArg Part.wait hp
  have hat := hi.barrier.thread p
  rw [hw] at hat
  obtain ⟨harrived, hfull, -⟩ := hat
  have ha := hi.active_of_mem (hi.sub harrived)
  obtain ⟨harr, hcard, -⟩ := hi.full ha hfull
  have hsub : ∀ q ∈ (s.access p l .done .opens b).team, q ∈ s.team := by
    intro q hq
    have hq : q ∈ if s.opened + 1 = s.target then ∅ else s.team := hq
    split at hq
    · exact absurd hq (Finset.notMem_empty q)
    · exact hq
  constructor
  case regions => rfl
  case target => rfl
  case opened => exact Nat.le_succ _
  case numThreads => exact fun _ => rfl
  case passed =>
    intro q hq k _ hpass
    have hpass : (Function.update s.parts p (.waiting l .done) q).passed k := hpass
    refine ⟨hsub q hq, rfl, .inl ?_⟩
    by_cases hqp : q = p
    · subst hqp
      rw [Function.update_self] at hpass
      rw [hp]
      exact hpass
    · rwa [Function.update_of_ne hqp] at hpass
  case finished =>
    intro _ he i hlt
    have he : s.opened + 1 = s.target := he
    obtain ⟨q, hq, hwork⟩ := hi.member (i := i) (by omega)
    refine ⟨q, hq, hwork, ?_⟩
    obtain ⟨k, u, hpart, -, hleft⟩ := hi.arrived_waiting (p := q) (harr ▸ hq)
    have h0 : k = 0 := by omega
    rw [hpart, h0]
    exact fun _ => Nat.zero_le _

/-- Every step starts a region or keeps to it. -/
theorem TeamStep.keeps {a : Act} (h : TeamStep s a s') (hi : TeamInv s) :
    (s.master = .outside ∧ ∃ barriers, s' = s.start barriers) ∨ Keeps s s' := by
  cases h with
  | setNumThreads num created hm => exact .inr (.setNumThreads hi hm)
  | start barriers hm => exact .inl ⟨hm, barriers, rfl⟩
  | add hm hlt => exact .inr (.same rfl rfl rfl rfl rfl rfl rfl)
  | enter hm hle =>
    refine .inr (.ofPart rfl rfl rfl rfl rfl rfl rfl ?_)
    intro l hl hpass
    exact absurd hl (Nat.not_le_of_lt hpass)
  | idle j hj hw h ht => exact .inr (.same rfl rfl rfl rfl rfl rfl rfl)
  | take j hj hw h => exact .inr .take
  | spurious j hw => exact .inr (.same rfl rfl rfl rfl rfl rfl rfl)
  | poolTls p hp => exact .inr (.ofPart rfl rfl rfl rfl rfl rfl rfl fun _ _ h => h.elim)
  | fnTls p hp =>
    refine .inr (.ofPart rfl rfl rfl rfl rfl rfl rfl ?_)
    have hmem := hi.mem (p := p) (by rw [hp]; exact Over.not_fnTls)
    have hregion : s.regions.getD (s.works p).1 ⟨0, 0⟩ = s.region := by
      rw [(hi.members p hmem).region, List.getD_eq_getElem?_getD, (Team.current_region (hi.regions_ne (hi.active_of_mem hmem))).2]
      rfl
    rw [hregion]
    intro l hl hpass
    exact absurd hl (Nat.not_le_of_lt hpass)
  | @barrier l p hp =>
    refine .inr (.ofPart rfl rfl rfl rfl rfl rfl rfl ?_)
    intro k _ hpass
    rw [hp]
    obtain hlt | rfl := Nat.lt_or_eq_of_le hpass
    · exact .inl hlt
    · exact .inr rfl
  | finish p hp =>
    refine .inr (.ofPart rfl rfl rfl rfl rfl rfl rfl ?_)
    intro k _ hpass
    rw [hp]
    obtain hlt | rfl := Nat.lt_or_eq_of_le hpass
    · exact .inl hlt
    · exact .inr rfl
  | @access l v v' e b p hp h =>
    have hsame : ∀ k ≤ s.region.barriers, (Part.waiting l v').passed k → (s.parts p).passed k ∨ s.parts p = .inFn k := by
      intro k _ hpass
      rw [hp]
      exact .inl hpass
    cases e with
    | quiet => exact .inr (.ofPart rfl rfl rfl rfl rfl rfl rfl hsame)
    | arrives => exact .inr (.ofPart rfl rfl rfl rfl rfl rfl rfl hsame)
    | opens => exact .inr (.opens hi hp h)
  | @resume l p hp =>
    refine .inr (.ofPart rfl rfl rfl rfl rfl rfl rfl ?_)
    intro k _ hpass
    rw [hp]
    exact .inl hpass
  | leave j hp => exact .inr (.ofPart rfl rfl rfl rfl rfl rfl rfl fun _ _ h => h.elim)
  | pass hp => exact .inr (.ofPart rfl rfl rfl rfl rfl rfl rfl fun _ _ h => h.elim)
  | drop hm => exact .inr (.same rfl rfl rfl rfl rfl rfl rfl)

end

/-! ## The invariant -/

section
variable (loops : Nat → Nat → List Loop)

/-- Member `i` of region `k`, of `n` members, has executed its share of phase `l`. -/
def Executed (log : List Iteration) (n k i l : Nat) : Prop :=
  ∀ e : Iteration, e.region = k → e.member = i → e.phase = l → Share loops n e → e ∈ log

/-- All members have. -/
def PhaseDone (log : List Iteration) (n k l : Nat) : Prop := ∀ i < n, Executed loops log n k i l

/-- Phase `l` of region `k` is before the one of `e`. -/
def Earlier (e : Iteration) (k l : Nat) : Prop := k < e.region ∨ k = e.region ∧ e.phase < l

/-- Where an iteration is executed, all earlier phases have been. -/
def Ordered (regions : List Region) (log : List Iteration) : Prop :=
  ∀ pre e post, log = pre ++ e :: post → ∀ k r l, regions[k]? = some r → l ≤ r.barriers → Earlier e k l → PhaseDone loops pre r.size k l

/-- The iteration is one of a member of its region. -/
def Belongs (regions : List Region) (e : Iteration) : Prop :=
  ∃ r, regions[e.region]? = some r ∧ e.member < r.size ∧ e.phase ≤ r.barriers ∧ Share loops r.size e

structure LoopInv (s : Looping) : Prop where
  team : TeamInv s.team
  threads : s.team.opened < s.team.target → s.team.numThreads.toNat = s.team.region.size
  ahead : s.team.opened < s.team.target → s.team.target ≤ s.team.opened + s.team.region.barriers + 1
  entries : ∀ e ∈ s.log, Belongs loops s.team.regions e
  nodup : s.log.Nodup
  passed : ∀ p ∈ s.team.team, ∀ l ≤ s.team.region.barriers, (s.team.parts p).passed l →
    Executed loops s.log s.team.region.size (s.team.works p).1 (s.team.works p).2 l
  past : ∀ k r, s.team.regions[k]? = some r → (k < s.team.current ∨ s.team.opened = s.team.target) → ∀ l ≤ r.barriers,
    PhaseDone loops s.log r.size k l
  ordered : Ordered loops s.team.regions s.log

end

section
variable {loops : Nat → Nat → List Loop} {s : Looping}

theorem Executed.mono {log log' : List Iteration} {n k i l : Nat} (h : Executed loops log n k i l) (hsub : log ⊆ log') :
    Executed loops log' n k i l :=
  fun e hk hi hl hs => hsub (h e hk hi hl hs)

theorem PhaseDone.mono {log log' : List Iteration} {n k l : Nat} (h : PhaseDone loops log n k l) (hsub : log ⊆ log') :
    PhaseDone loops log' n k l :=
  fun i hi => (h i hi).mono hsub

/-- Whoever is behind a barrier of the region, all members are. -/
theorem LoopInv.behind (hi : LoopInv loops s) {p l k : Nat} (hp : s.team.parts p = .inFn l) (hlk : l < k)
    (hk : k ≤ s.team.region.barriers) : PhaseDone loops s.log s.team.region.size s.team.current k := by
  have hmem := hi.team.mem (p := p) (by rw [hp]; exact Over.not_inFn)
  have ha := hi.team.active_of_mem hmem
  have hact := hi.team.active ha
  have hat := (hi.team.members p hmem).ahead
  rw [hp] at hat
  have hat : s.team.opened + l + 1 = s.team.target := hat
  have hcard : s.team.team.card = s.team.region.size := by
    by_contra hne
    have hle := hact.le
    have hlt := hact.card
    have := hact.early (by omega)
    omega
  intro i hlt
  obtain ⟨q, hq, hwork⟩ := hi.team.member (i := i) (by omega)
  have hex := hi.passed q hq k hk
  rw [hwork] at hex
  apply hex
  -- it is in the same phase, or before its barrier, or behind the one before
  have haq := (hi.team.members q hq).ahead
  cases hx : s.team.parts q with
  | out =>
    rw [hx] at haq
    have := haq.2
    omega
  | poolTls | fnTls =>
    rw [hx] at haq
    have haq : s.team.opened + s.team.region.barriers + 1 = s.team.target := haq
    omega
  | inFn m =>
    rw [hx] at haq
    have haq : s.team.opened + m + 1 = s.team.target := haq
    show m < k
    omega
  | waiting m w =>
    rw [hx] at haq
    show m ≤ k
    by_cases hc : q ∈ s.team.arrived ∨ Coming (some w)
    · have := haq.1 hc
      omega
    · obtain ⟨h1, h2⟩ := not_or.mp hc
      have := haq.2 h1 h2
      omega

/-- A step within a region. -/
theorem LoopInv.keeps (hi : LoopInv loops s) {t : Team} (ht : TeamInv t) (hk : Keeps s.team t)
    (hdone : ∀ p e, Due loops s.team p e → t.parts p ≠ s.team.parts p → e ∈ s.log) : LoopInv loops { s with team := t } := by
  obtain ⟨hregions, htarget, hopened, hthreads, hpassed, hover⟩ := hk
  have hregion : t.region = s.team.region := congrArg (·.getLastD ⟨0, 0⟩) hregions
  have hcurrent : t.current = s.team.current := congrArg (·.length - 1) hregions
  have hactive : t.opened < t.target → s.team.opened < s.team.target := by
    intro h
    rw [htarget] at h
    exact Nat.lt_of_le_of_lt hopened h
  constructor
  case team => exact ht
  case threads =>
    intro ha
    show t.numThreads.toNat = t.region.size
    rw [hregion, hthreads (hactive ha)]
    exact hi.threads (hactive ha)
  case ahead =>
    intro ha
    have hlt := hi.ahead (hactive ha)
    show t.target ≤ t.opened + t.region.barriers + 1
    rw [hregion, htarget]
    omega
  case entries =>
    intro e he
    show Belongs loops t.regions e
    rw [hregions]
    exact hi.entries e he
  case nodup => exact hi.nodup
  case passed =>
    show ∀ p ∈ t.team, ∀ l ≤ t.region.barriers, (t.parts p).passed l → Executed loops s.log t.region.size (t.works p).1 (t.works p).2 l
    rw [hregion]
    intro p hp l hl hpass
    obtain ⟨hmem, hwork, hold⟩ := hpassed p hp l hl hpass
    rw [hwork]
    obtain hold | hold := hold
    · exact hi.passed p hmem l hl hold
    · intro e hr hm hph hshare
      refine hdone p e ⟨?_, Prod.ext hr.symm hm.symm, ?_⟩ ?_
      · rw [hph]
        exact hold
      · rw [hi.threads (hi.team.active_of_mem hmem)]
        exact hshare
      · intro he
        rw [he, hold] at hpass
        exact absurd hpass (Nat.lt_irrefl l)
  case past =>
    intro k r hr hlast l hl
    have hr : t.regions[k]? = some r := hr
    have hlast : k < t.current ∨ t.opened = t.target := hlast
    rw [hregions] at hr
    rw [hcurrent] at hlast
    by_cases ha : s.team.opened < s.team.target
    · have hne := hi.team.regions_ne ha
      obtain ⟨hlt, hget⟩ := Team.current_region hne
      have hklt := (List.getElem?_eq_some_iff.mp hr).1
      by_cases hk : k < s.team.current
      · exact hi.past k r hr (.inl hk) l hl
      · have hkc : k = s.team.current := by
          unfold Team.current at hk ⊢
          omega
        subst hkc
        obtain rfl := Option.some.inj (hget.symm.trans hr)
        intro i hi'
        obtain ⟨p, hp, hwork, hall⟩ := hover ha (hlast.resolve_left hk) i hi'
        have hex := hi.passed p hp l hl (hall l)
        rwa [hwork] at hex
    · exact hi.past k r hr (.inr (Nat.le_antisymm hi.team.target (Nat.le_of_not_lt ha))) l hl
  case ordered =>
    show Ordered loops t.regions s.log
    rw [hregions]
    exact hi.ordered

/-- The master starts a region. -/
theorem LoopInv.start (hi : LoopInv loops s) {barriers : Nat} (hm : s.team.master = .outside) (ht : TeamInv (s.team.start barriers)) :
    LoopInv loops { s with team := s.team.start barriers } := by
  obtain ⟨hout, hover, -⟩ := hi.team.at_outside hm
  have hregion : (s.team.start barriers).region = ⟨s.team.numThreads.toNat, barriers⟩ := getLastD_concat _ _ _
  have hold : ∀ e ∈ s.log, e.region < s.team.regions.length := by
    intro e he
    obtain ⟨r, hr, -⟩ := hi.entries e he
    exact (List.getElem?_eq_some_iff.mp hr).1
  have hget : ∀ {k : Nat} {r : Region}, k < s.team.regions.length → (s.team.start barriers).regions[k]? = some r →
      s.team.regions[k]? = some r := by
    intro k r hk hr
    have hr : (s.team.regions ++ [⟨s.team.numThreads.toNat, barriers⟩])[k]? = some r := hr
    rwa [List.getElem?_append_left hk] at hr
  constructor
  case team => exact ht
  case threads =>
    intro _
    show s.team.numThreads.toNat = (s.team.start barriers).region.size
    rw [hregion]
  case ahead =>
    intro _
    show s.team.opened + barriers + 1 ≤ s.team.opened + (s.team.start barriers).region.barriers + 1
    rw [hregion]
  case entries =>
    intro e he
    obtain ⟨r, hr, h⟩ := hi.entries e he
    refine ⟨r, ?_, h⟩
    show (s.team.regions ++ [_])[e.region]? = some r
    rw [List.getElem?_append_left (hold e he)]
    exact hr
  case nodup => exact hi.nodup
  case passed =>
    intro p hp l _ hpass
    obtain rfl := Finset.mem_singleton.mp hp
    have hpass : (s.team.parts 0).passed l := hpass
    rw [hout] at hpass
    exact hpass.elim
  case past =>
    intro k r hr hlast l hl
    have hne : (s.team.start barriers).opened ≠ (s.team.start barriers).target := by
      show s.team.opened ≠ s.team.opened + barriers + 1
      omega
    have hk : k < s.team.regions.length := by
      have hlt : k < (s.team.regions ++ [(⟨s.team.numThreads.toNat, barriers⟩ : Region)]).length - 1 := hlast.resolve_right hne
      rw [List.length_append, List.length_singleton] at hlt
      omega
    exact hi.past k r (hget hk hr) (.inr hover) l hl
  case ordered =>
    intro pre e post hlog k r l hr hl hearlier
    have hmem : e ∈ s.log := by
      have hlog : s.log = pre ++ e :: post := hlog
      rw [hlog]
      exact List.mem_append_right _ List.mem_cons_self
    have hk : k < s.team.regions.length := by
      have := hold e hmem
      obtain h | h := hearlier
      · omega
      · omega
    exact hi.ordered pre e post hlog k r l (hget hk hr) hl hearlier

/-- An iteration is executed. -/
theorem LoopInv.iterate (hi : LoopInv loops s) {p : Nat} {e : Iteration} (hd : Due loops s.team p e) (hnew : e ∉ s.log) :
    LoopInv loops { s with log := s.log ++ [e] } := by
  have hmem := hi.team.mem (p := p) (by rw [hd.phase]; exact Over.not_inFn)
  have ha := hi.team.active_of_mem hmem
  have hm := hi.team.members p hmem
  have hact := hi.team.active ha
  have hcur := (Team.current_region (hi.team.regions_ne ha)).2
  have hregion : e.region = s.team.current := by
    rw [← hm.region, hd.work]
  have hahead := hm.ahead
  rw [hd.phase] at hahead
  have hahead : s.team.opened + e.phase + 1 = s.team.target := hahead
  have hsub : s.log ⊆ s.log ++ [e] := List.subset_append_left _ _
  constructor
  case team => exact hi.team
  case threads => exact hi.threads
  case ahead => exact hi.ahead
  case entries =>
    intro e' he'
    obtain he' | he' := List.mem_append.mp he'
    · exact hi.entries e' he'
    · obtain rfl := List.mem_singleton.mp he'
      have hlt := hm.lt
      have hcard := hact.card
      have hle := hact.le
      have hfew := hi.ahead ha
      rw [hd.work] at hlt
      dsimp only at hlt
      refine ⟨s.team.region, ?_, by omega, by omega, ?_⟩
      · rw [hregion]
        exact hcur
      · rw [← hi.threads ha]
        exact hd.share
  case nodup =>
    refine List.nodup_append.mpr ⟨hi.nodup, List.nodup_singleton e, ?_⟩
    rintro a ha' b hb rfl
    obtain rfl := List.mem_singleton.mp hb
    exact hnew ha'
  case passed => exact fun q hq l hl hpass => (hi.passed q hq l hl hpass).mono hsub
  case past => exact fun k r hr hlast l hl => (hi.past k r hr hlast l hl).mono hsub
  case ordered =>
    intro pre e' post hlog k r l hr hl hearlier
    have hlog : s.log ++ [e] = pre ++ e' :: post := hlog
    obtain rfl | ⟨post, x, rfl⟩ := List.eq_nil_or_concat post
    · -- the new one
      obtain ⟨rfl, he⟩ := List.append_inj' hlog rfl
      obtain rfl := (List.cons.inj he).1
      obtain hlt | ⟨rfl, hlt⟩ := hearlier
      · rw [hregion] at hlt
        exact hi.past k r hr (.inl hlt) l hl
      · rw [hregion] at hr ⊢
        obtain rfl := Option.some.inj (hcur.symm.trans hr)
        exact hi.behind hd.phase hlt hl
    · have hold : s.log = pre ++ e' :: post := by
        have h : s.log ++ [e] = (pre ++ e' :: post) ++ [x] := by
          rw [hlog, List.concat_eq_append, List.append_assoc]
          rfl
        exact (List.append_inj' h rfl).1
      exact hi.ordered pre e' post hold k r l hr hl hearlier

theorem LoopRun.inv {s' : Looping} (h : LoopRun loops s s') (hi : LoopInv loops s) : LoopInv loops s' := by
  obtain ⟨a, h, hmet⟩ := h
  cases h with
  | team h hdone =>
    have ht := h.inv hi.team hmet
    obtain ⟨hm, barriers, rfl⟩ | hk := h.keeps hi.team
    · exact hi.start hm ht
    · exact hi.keeps ht hk hdone
  | iterate p e hd hnew => exact hi.iterate hd hnew

theorem looping_inv {numThreads queueSize : Int} {fresh : Nat → Task} {pool : Pool}
    (h : threadpoolCreate numThreads queueSize fresh = some pool) : LoopInv loops ⟨createTeam pool numThreads, []⟩ where
  team := createTeam_inv h
  threads ha := absurd ha (Nat.lt_irrefl 0)
  ahead ha := absurd ha (Nat.lt_irrefl 0)
  entries e he := absurd he List.not_mem_nil
  nodup := List.nodup_nil
  passed p hp := absurd hp (Finset.notMem_empty p)
  past k r hr := nomatch hr
  ordered pre e post hlog := by
    have hlen := congrArg List.length hlog
    simp at hlen

theorem looping_reach_inv {numThreads queueSize : Int} {fresh : Nat → Task} {pool : Pool}
    (h : threadpoolCreate numThreads queueSize fresh = some pool)
    (hr : Relation.ReflTransGen (LoopRun loops) ⟨createTeam pool numThreads, []⟩ s) : LoopInv loops s := by
  induction hr with
  | refl => exact looping_inv h
  | tail _ hstep ih => exact hstep.inv ih

end

/-! ## Whole loops -/

theorem asInt_of_lt {n : Nat} (h : (n : Int) ≤ 2147483647) : asInt n = n := by
  apply IntType.wrap_of_inRange
  unfold IntType.InRange IntType.int32
  dsimp only
  omega

theorem Loop.Shareable.partitions {x : Loop} {n : Nat} (h : x.Shareable n) :
    Partitions x.type n x.sched x.lower x.upper x.stride x.incr x.chunk := by
  obtain ⟨type, sched, lower, upper, stride, incr, chunk⟩ := x
  obtain ⟨hv, hr⟩ := h
  cases sched with
  | static => exact Valid.static_partitions hv hr
  | staticChunked => exact Valid.chunked_partitions hv hr

theorem Loop.Shareable.bounds_eq {x : Loop} {n g : Nat} (h : x.Shareable n) (hg : g < n) :
    x.bounds n g = kmpcForStaticInit x.type n g x.sched.code x.lower x.upper x.stride x.incr x.chunk := by
  have hle := h.1.threads.2
  unfold Loop.bounds
  rw [asInt_of_lt hle, asInt_of_lt (by omega)]

structure LoopsComplete (loops : Nat → Nat → List Loop) (s : Looping) : Prop where
  /-- What is executed is an iteration of its loop. -/
  inside : ∀ e ∈ s.log, ∃ r x, s.team.regions[e.region]? = some r ∧ e.phase ≤ r.barriers ∧ (loops e.region e.phase)[e.loop]? = some x ∧
    x.Iterates e.value
  once : s.log.Pairwise fun e e' => ¬ (e.region = e'.region ∧ e.phase = e'.phase ∧ e.loop = e'.loop ∧ e.value = e'.value)
  /-- When a region is over, its loops have been executed. -/
  complete : ∀ k r, s.team.regions[k]? = some r → (k < s.team.current ∨ s.team.master = .outside ∨ s.team.master = .dropping) →
    ∀ l ≤ r.barriers, ∀ n x, (loops k l)[n]? = some x → ∀ i, x.Iterates i →
      ∃ e ∈ s.log, e.region = k ∧ e.phase = l ∧ e.loop = n ∧ e.value = i
  /-- Where an iteration is executed, the loops of the phases before have been. -/
  ordered : ∀ pre e post, s.log = pre ++ e :: post → ∀ k r l, s.team.regions[k]? = some r → l ≤ r.barriers → Earlier e k l →
    ∀ n x, (loops k l)[n]? = some x → ∀ i, x.Iterates i → ∃ e' ∈ pre, e'.region = k ∧ e'.phase = l ∧ e'.loop = n ∧ e'.value = i

section
variable {loops : Nat → Nat → List Loop}

/-- All iterations of a phase that is done have been executed. -/
theorem PhaseDone.iterates {log : List Iteration} {n k l : Nat} (h : PhaseDone loops log n k l) {m : Nat} {x : Loop}
    (hx : (loops k l)[m]? = some x) (hs : x.Shareable n) {i : Int} (hi : x.Iterates i) :
    ∃ e ∈ log, e.region = k ∧ e.phase = l ∧ e.loop = m ∧ e.value = i := by
  obtain ⟨g, c, j, b, hg, hb, he⟩ := hs.partitions.covered i hi.1 hi.2
  have hg : g < n := by exact_mod_cast hg
  refine ⟨⟨k, l, m, g, c, j, i⟩, h g hg _ rfl rfl rfl ⟨x, b, hx, ?_, he⟩, rfl, rfl, rfl, rfl⟩
  rw [hs.bounds_eq hg]
  exact hb

/-- What a member executes of a loop. -/
theorem Share.kmpc {n : Nat} {e : Iteration} (h : Share loops n e) {x : Loop} (hx : (loops e.region e.phase)[e.loop]? = some x)
    (hs : x.Shareable n) (hm : e.member < n) :
    ∃ b, kmpcForStaticInit x.type n e.member x.sched.code x.lower x.upper x.stride x.incr x.chunk = some b ∧
      Executes x.sched b x.upper x.incr e.chunk e.index e.value := by
  obtain ⟨x', b, hx', hb, he⟩ := h
  obtain rfl := Option.some.inj (hx.symm.trans hx')
  exact ⟨b, (hs.bounds_eq hm).symm.trans hb, he⟩

end

/-- For any pool, any regions and any loops that can be shared out in their teams, in every run
    whose steps meet the condition. -/
theorem loops_complete (loops : Nat → Nat → List Loop) (numThreads queueSize : Int) (fresh : Nat → Task) (pool : Pool) (s : Looping)
    (hc : threadpoolCreate numThreads queueSize fresh = some pool)
    (hr : Relation.ReflTransGen (LoopRun loops) ⟨createTeam pool numThreads, []⟩ s)
    (hv : ∀ k r, s.team.regions[k]? = some r → ∀ l ≤ r.barriers, ∀ x ∈ loops k l, x.Shareable r.size) : LoopsComplete loops s := by
  have hi := looping_reach_inv hc hr
  have hshare : ∀ {k n : Nat} {r : Region} {l : Nat} {x : Loop}, s.team.regions[k]? = some r → l ≤ r.barriers → (loops k l)[n]? = some x →
      x.Shareable r.size := fun hk hl hx => hv _ _ hk _ hl _ (List.mem_of_getElem? hx)
  constructor
  case inside =>
    intro e he
    obtain ⟨r, hk, hm, hl, x, b, hx, hb, hex⟩ := hi.entries e he
    have hs := hshare hk hl hx
    obtain ⟨b', hb', hex'⟩ := Share.kmpc ⟨x, b, hx, hb, hex⟩ hx hs hm
    exact ⟨r, x, hk, hl, hx, hs.partitions.inside e.member e.chunk e.index b' e.value (by exact_mod_cast hm) hb' hex'⟩
  case once =>
    refine hi.nodup.imp_of_mem ?_
    rintro e e' he he' hne ⟨hregion, hphase, hloop, hvalue⟩
    obtain ⟨r, hk, hm, hl, x, b, hx, hb, hex⟩ := hi.entries e he
    obtain ⟨r', hk', hm', -, hsh'⟩ := hi.entries e' he'
    rw [← hregion] at hk'
    obtain rfl := Option.some.inj (hk.symm.trans hk')
    have hx' : (loops e'.region e'.phase)[e'.loop]? = some x := by
      rw [← hregion, ← hphase, ← hloop]
      exact hx
    have hs := hshare hk hl hx
    obtain ⟨b, hb, hex⟩ := Share.kmpc ⟨x, b, hx, hb, hex⟩ hx hs hm
    obtain ⟨b', hb', hex'⟩ := hsh'.kmpc hx' hs hm'
    rw [← hvalue] at hex'
    obtain ⟨h1, h2, h3⟩ := hs.partitions.once e.member e'.member e.chunk e'.chunk e.index e'.index b b' e.value (by exact_mod_cast hm)
      (by exact_mod_cast hm') hb hb' hex hex'
    apply hne
    cases e
    cases e'
    dsimp only at *
    rw [hregion, hphase, hloop, hvalue, h1, h2, h3]
  case complete =>
    intro k r hk hover l hl n x hx i hiter
    exact (hi.past k r hk (hover.imp_right hi.team.over) l hl).iterates hx (hshare hk hl hx) hiter
  case ordered =>
    intro pre e post hlog k r l hk hl hearlier n x hx i hiter
    exact (hi.ordered pre e post hlog k r l hk hl hearlier).iterates hx (hshare hk hl hx) hiter

/-! ## A loop of two iterations on two threads -/

def twoTrips : Loop := ⟨.int32, .static, 0, 1, 0, 1, 0⟩

/-- The loops of every region. -/
def twoTripLoops (_ _ : Nat) : List Loop := [twoTrips]

def Part.inside : Part → Bool
  | .inFn _ => true
  | _ => false

section
variable {loops : Nat → Nat → List Loop} {s : Looping} {a : Act} {t : Team}

/-- A step in which nobody leaves a phase. -/
theorem LoopRun.stay (h : TeamStep s.team a t) (hmet : Met s.team a) (hstay : ∀ p l, s.team.parts p = .inFn l → t.parts p = .inFn l) :
    LoopRun loops s { s with team := t } :=
  ⟨a, .team h fun p _ hd hne => absurd ((hstay p _ hd.phase).trans hd.phase.symm) hne, hmet⟩

theorem update_stays {f : Nat → Part} {q : Nat} {x : Part} (hq : (f q).inside = false) (p l : Nat) (h : f p = .inFn l) :
    Function.update f q x p = .inFn l := by
  by_cases hpq : p = q
  · subst hpq
    rw [h] at hq
    cases hq
  · rw [Function.update_of_ne hpq]
    exact h

/-- Who leaves a phase is the one that the step is about. -/
theorem left_update {f : Nat → Part} {q p : Nat} {x : Part} (h : Function.update f q x p ≠ f p) : p = q := by
  by_contra hpq
  exact h (Function.update_of_ne hpq _ _)

end

/-- Each thread has one iteration. -/
theorem twoTrips_share {e : Iteration} (h : Share twoTripLoops 2 e) (hm : e.member = 0 ∨ e.member = 1) :
    e.loop = 0 ∧ e.chunk = 0 ∧ e.index = 0 ∧ e.value = e.member := by
  obtain ⟨x, b, hx, hb, he⟩ := h
  have hlt : e.loop < [twoTrips].length := (List.getElem?_eq_some_iff.mp hx).1
  have hloop : e.loop = 0 := Nat.lt_one_iff.mp hlt
  rw [hloop] at hx
  obtain rfl : twoTrips = x := Option.some.inj hx
  have hbounds : b.lower = e.member ∧ b.upper = e.member := by
    obtain hm | hm := hm
    · rw [hm] at hb ⊢
      have h0 : twoTrips.bounds 2 0 = some ⟨false, 0, 0, 0⟩ := by decide
      obtain rfl := Option.some.inj (h0.symm.trans hb)
      exact ⟨rfl, rfl⟩
    · rw [hm] at hb ⊢
      have h1 : twoTrips.bounds 2 1 = some ⟨true, 1, 1, 0⟩ := by decide
      obtain rfl := Option.some.inj (h1.symm.trans hb)
      exact ⟨rfl, rfl⟩
  have he : e.chunk = 0 ∧ e.value = b.lower + e.index * 1 ∧ Within 1 e.value b.upper := he
  obtain ⟨hchunk, hvalue, hwithin⟩ := he
  have hwithin : e.value ≤ b.upper := hwithin
  omega

/-- A thread returns from the function when it has executed its iteration. -/
theorem twoTrips_finish {s : Looping} {p m : Nat} (hn : s.team.numThreads.toNat = 2) (hw : s.team.works p = (0, m)) (hm : m = 0 ∨ m = 1)
    (hp : s.team.parts p = .inFn 0) (hlog : ⟨0, 0, 0, m, 0, 0, m⟩ ∈ s.log) :
    LoopRun twoTripLoops s { s with team := (s.team.setPart p (.waiting 0 .sample)).finish p } := by
  refine ⟨_, .team (.finish p hp) ?_, trivial⟩
  intro q e hd hne
  obtain rfl := left_update hne
  have hphase : e.phase = 0 := (Part.inFn.inj (hp.symm.trans hd.phase)).symm
  obtain ⟨hregion, hmember⟩ := Prod.mk.inj (hw.symm.trans hd.work)
  have hshare := hd.share
  rw [hn] at hshare
  obtain ⟨hloop, hchunk, hindex, hvalue⟩ := twoTrips_share hshare (by rwa [← hmember])
  have he : e = ⟨0, 0, 0, m, 0, 0, m⟩ := by
    cases e
    dsimp only at *
    rw [← hregion, hphase, hloop, ← hmember, hchunk, hindex, hvalue, ← hmember]
  rw [he]
  exact hlog

theorem twoTrips_shareable : twoTrips.Shareable 2 :=
  ⟨⟨by decide, by decide, by decide, by decide, by decide, by decide, by decide, by decide, by decide, by decide,
    SchedType.noConfusion, SchedType.noConfusion⟩, fun h => absurd h (by decide), SchedType.noConfusion⟩

theorem loops_complete_two : ∃ s, Relation.ReflTransGen (LoopRun twoTripLoops) ⟨createTeam onePool 1, []⟩ s ∧ s.team.master = .dropping ∧
    s.log = [⟨0, 0, 0, 1, 0, 0, 1⟩, ⟨0, 0, 0, 0, 0, 0, 0⟩] ∧ LoopsComplete twoTripLoops s := by
  have h0 : Relation.ReflTransGen (LoopRun twoTripLoops) ⟨createTeam onePool 1, []⟩ _ :=
    .single (LoopRun.stay (.setNumThreads 1 0 rfl) (Nat.le_refl 0) fun _ _ h => h)
  have h1 := ((h0.tail (LoopRun.stay (.setNumThreads 2 1 rfl) (Nat.le_refl 1) fun _ _ h => h)).tail
    (LoopRun.stay (.start 0 rfl) ⟨rfl, show 1 ≤ 2 by decide⟩ fun _ _ h => h)).tail
    (LoopRun.stay (.add rfl (by decide)) (show (0 : Int) < 4 by decide) fun _ _ h => h)
  have h2 := ((h1.tail (LoopRun.stay (.enter rfl (by decide)) trivial (update_stays rfl))).tail
    (LoopRun.stay (.take 0 (by decide) rfl rfl) trivial (update_stays rfl))).tail
    (LoopRun.stay (.poolTls 1 rfl) trivial (update_stays rfl))
  have h3 := ((h2.tail (LoopRun.stay (.fnTls 1 rfl) trivial (update_stays rfl))).tail
    ⟨_, .iterate 1 ⟨0, 0, 0, 1, 0, 0, 1⟩ ⟨rfl, rfl, twoTrips, ⟨true, 1, 1, 0⟩, rfl, by decide, rfl, by decide, by decide⟩ List.not_mem_nil,
      trivial⟩).tail (twoTrips_finish (p := 1) (m := 1) rfl rfl (.inr rfl) rfl List.mem_cons_self)
  have h4 := ((h3.tail (LoopRun.stay (.access 1 rfl .sample) trivial (update_stays rfl))).tail
    (LoopRun.stay (.access 1 rfl (.add 0)) trivial (update_stays rfl))).tail
    (LoopRun.stay (.access 1 rfl (.readMax 0 0)) (fun h => absurd (Finset.mem_insert_self 1 _) h) (update_stays rfl))
  have h5 := (h4.tail
    ⟨_, .iterate 0 ⟨0, 0, 0, 0, 0, 0, 0⟩ ⟨rfl, rfl, twoTrips, ⟨false, 0, 0, 0⟩, rfl, by decide, rfl, by decide, by decide⟩ (by decide),
      trivial⟩).tail (twoTrips_finish (p := 0) (m := 0) rfl rfl (.inl rfl) rfl (List.mem_cons_of_mem _ List.mem_cons_self))
  have h6 := ((h5.tail (LoopRun.stay (.access 0 rfl .sample) trivial (update_stays rfl))).tail
    (LoopRun.stay (.access 0 rfl (.add 0)) trivial (update_stays rfl))).tail
    (LoopRun.stay (.access 0 rfl (.readMax 0 1)) (fun h => absurd (Finset.mem_insert_self 0 _) h) (update_stays rfl))
  have h7 := (((h6.tail (LoopRun.stay (.access 0 rfl .reset) trivial (update_stays rfl))).tail
    (LoopRun.stay (.access 0 rfl .toggle) trivial (update_stays rfl))).tail
    (LoopRun.stay (.access 0 rfl (.flip 0)) trivial (update_stays rfl))).tail
    (LoopRun.stay (.pass rfl) trivial (update_stays rfl))
  refine ⟨_, h7, rfl, rfl, loops_complete twoTripLoops 1 4 (fun _ => ⟨0, 0⟩) onePool _ rfl h7 ?_⟩
  intro k r hk l _ x hx
  obtain rfl := List.mem_singleton.mp hx
  have hr : ([⟨2, 0⟩] : List Region)[k]? = some r := hk
  obtain rfl := List.mem_singleton.mp (List.mem_of_getElem? hr)
  exact twoTrips_shareable

end Popcorn.Bomp
