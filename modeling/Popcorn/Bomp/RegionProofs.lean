/-
  Popcorn.Bomp.RegionProofs — a parallel region completes before its master continues
  (see `Popcorn.Bomp.Region`).

  The condition is on the state before a step (`Met`): workers can be created, a region is
  started with the barrier set to its number of members, which is not 0, a task fits into the
  queue, and a thread that compares the counter after its round has been opened does not find
  `max - 1` in it.

  Proved:
  - `TeamStep.inv`: every step that meets the condition keeps the invariant of
    `Popcorn.Bomp.RegionInv`.
  - `regions_complete`: in every run of such steps, every member of a region calls its function
    once and has returned from it when the master goes on, and whoever sets its thread-local
    data finds the array of its region.
-/

import Popcorn.Bomp.RegionInv

namespace Popcorn.Bomp

section
variable {s : Team} {p : Nat}

/-! ## The queue and the workers -/

/-- The pool changes, with its queue as it was and whoever ran a task still running it. -/
theorem TeamInv.setSys {sys : Sys} (hi : TeamInv s) (hpool : Inv sys) (hrunning : sys.pool.shutdown = false)
    (hqueue : sys.pool.queued = s.sys.pool.queued)
    (hworkers : ∀ j task, s.sys.workers j = .running task → ∃ task, sys.workers j = .running task) : TeamInv { s with sys := sys } := by
  refine ⟨hpool, hrunning, hi.barrier, hi.sub, hi.target, fun he => ⟨(hi.idle he).1, hqueue.trans (hi.idle he).2⟩, ?_, ?_, hi.others,
    hi.injective, ?_, hi.master, hi.future, hi.past⟩
  · intro ha
    have hact := hi.active ha
    exact ⟨hact.max, hact.master, hact.card, hact.le, hqueue.trans hact.queue, hact.early, hact.rest⟩
  · intro q hq
    have hm := hi.members q hq
    exact hm.stays rfl rfl rfl (Nat.le_refl _) hm.ahead rfl rfl
  · intro j hj
    obtain ⟨task, ht⟩ := hi.workers j hj
    exact hworkers j task ht

theorem running_update {ws : Nat → Worker} {j : Nat} {w : Worker} (hw : ∀ task, ws j ≠ .running task) (i : Nat) (task : Task)
    (h : ws i = .running task) : ∃ task, Function.update ws j w i = .running task := by
  have hij : i ≠ j := by
    rintro rfl
    exact hw task h
  rw [Function.update_of_ne hij]
  exact ⟨task, h⟩

/-- A worker's turn that takes nothing: the pool is running, so it waits for tasks. -/
theorem TeamInv.idleTurn {j : Nat} {t : Turn} {pool : Pool} (hi : TeamInv s) (hw : s.sys.workers j = .ready)
    (h : threadpoolRun s.sys.pool = (t, pool)) (ht : t.taken = []) :
    TeamInv { s with sys := { s.sys with pool := pool, workers := Function.update s.sys.workers j t.next } } := by
  have hpool : Inv { s.sys with pool := pool, workers := Function.update s.sys.workers j t.next } := by
    have hturn := hi.pool.turn (i := j) h
    rw [ht, List.append_nil] at hturn
    exact hturn
  obtain ⟨rfl, rfl, -⟩ | ⟨-, -, -, hs⟩ | ⟨rfl, -⟩ := threadpoolRun_cases h
  · exact hi.setSys hpool hi.running rfl (running_update (fun task hr => by rw [hw] at hr; cases hr))
  · rw [hi.running] at hs
    cases hs
  · cases ht

theorem TeamInv.spurious {j : Nat} (hi : TeamInv s) (hw : s.sys.workers j = .waiting) :
    TeamInv { s with sys := { s.sys with workers := Function.update s.sys.workers j .ready } } := by
  refine hi.setSys ?_ hi.running rfl (running_update (fun task hr => by rw [hw] at hr; cases hr))
  apply hi.pool.workers
  · intro i h
    exact update_eq_of_ne h (by exact Worker.noConfusion)
  · intro i h
    exact update_eq_of_ne h (by exact Worker.noConfusion)

/-- What there is when worker `j` takes a task: the next member's work, first in the queue. -/
structure Takes (s : Team) (j : Nat) (task : Task) (pool : Pool) : Prop where
  out : s.parts (j + 1) = .out
  notMem : j + 1 ∉ s.team
  active : s.opened < s.target
  lt : s.team.card < s.next
  task : task = workTask s.current s.team.card
  queue : pool.queued = (List.range' (s.team.card + 1) (s.next - (s.team.card + 1))).map (workTask s.current)

section
variable {j : Nat} {task : Task} {pool : Pool}

theorem TeamInv.takes (hi : TeamInv s) (hw : s.sys.workers j = .ready) (h : threadpoolRun s.sys.pool = (.run task, pool)) :
    Takes s j task pool := by
  have hqueue := hi.pool.queued_run h
  have hout : s.parts (j + 1) = .out := hi.ready_out (fun task hr => by rw [hw] at hr; cases hr)
  have ha : s.opened < s.target := by
    refine Nat.lt_of_le_of_ne hi.target ?_
    intro he
    rw [(hi.idle he).2] at hqueue
    cases hqueue
  have hq := (hi.active ha).queue
  -- the queue is not empty, so there is a member to take
  have hlt : s.team.card < s.next := by
    by_contra hn
    rw [show s.next - s.team.card = 0 by omega, hqueue] at hq
    cases hq
  rw [show s.next - s.team.card = s.next - (s.team.card + 1) + 1 by omega, List.range'_succ, List.map_cons, hqueue] at hq
  obtain ⟨htask, hrest⟩ := List.cons.inj hq
  exact ⟨hout, hi.out_notMem hout (Nat.succ_ne_zero j), ha, hlt, htask, hrest⟩

variable (ht : Takes s j task pool)

include ht in
theorem Takes.card : (s.take j task pool).team.card = s.team.card + 1 := Finset.card_insert_of_notMem ht.notMem

include ht in
theorem Takes.work : (s.take j task pool).works (j + 1) = (s.current, s.team.card) := by
  show Function.update s.works (j + 1) task.args.unpair (j + 1) = _
  rw [Function.update_self, ht.task]
  exact Nat.unpair_pair _ _

include ht in
theorem Takes.ne {q : Nat} (hq : q ∈ s.team) : q ≠ j + 1 := by
  rintro rfl
  exact ht.notMem hq

include ht in
theorem Takes.works {q : Nat} (hq : q ∈ s.team) : (s.take j task pool).works q = s.works q := Function.update_of_ne (ht.ne hq) _ _

include ht in
theorem TeamInv.take_active (hi : TeamInv s) : ActiveInv (s.take j task pool) := by
  have hact := hi.active ht.active
  have hcard := ht.card
  have hlt := ht.lt
  constructor
  case max => exact hact.max
  case master => exact Finset.mem_insert_of_mem hact.master
  case card =>
    rw [hcard]
    exact hlt
  case le => exact hact.le
  case queue =>
    rw [hcard]
    exact ht.queue
  case early =>
    intro _
    exact hact.early (Nat.lt_of_lt_of_le hlt hact.le)
  case rest =>
    intro i hc
    rw [hcard] at hc
    exact hact.rest i (by omega)

include ht in
/-- The worker is a member of the team, at the start of its work. -/
theorem TeamInv.take_self (hi : TeamInv s) : MemberInv (s.take j task pool) (j + 1) := by
  have hact := hi.active ht.active
  have hpart : (s.take j task pool).parts (j + 1) = .poolTls := Function.update_self _ _ _
  obtain ⟨hbegan, hfinished⟩ := hact.rest s.team.card (Nat.le_refl _)
  constructor
  case region =>
    rw [ht.work]
    rfl
  case lt =>
    rw [ht.work, ht.card]
    exact Nat.lt_succ_self _
  case ahead =>
    rw [hpart]
    exact hact.early (Nat.lt_of_lt_of_le ht.lt hact.le)
  case began =>
    rw [ht.work, hpart]
    exact hbegan
  case finished =>
    rw [ht.work, hpart]
    exact hfinished

include ht in
theorem TeamInv.take_injective (hi : TeamInv s) (q r : Nat) (hq : q ∈ (s.take j task pool).team) (hr : r ∈ (s.take j task pool).team)
    (he : (s.take j task pool).works q = (s.take j task pool).works r) : q = r := by
  have hnew : ∀ q, q ∈ s.team → (s.take j task pool).works q ≠ (s.current, s.team.card) := by
    intro q hq he
    rw [ht.works hq] at he
    have hlt := (hi.members q hq).lt
    rw [he] at hlt
    exact Nat.lt_irrefl _ hlt
  obtain rfl | hq := Finset.mem_insert.mp hq
  · obtain rfl | hr := Finset.mem_insert.mp hr
    · rfl
    · exact absurd (he.symm.trans ht.work) (hnew r hr)
  · obtain rfl | hr := Finset.mem_insert.mp hr
    · exact absurd (he.trans ht.work) (hnew q hq)
    · rw [ht.works hq, ht.works hr] at he
      exact hi.injective q r hq hr he

/-- A worker takes the first task of the queue. -/
theorem TeamInv.take (hi : TeamInv s) (hw : s.sys.workers j = .ready) (h : threadpoolRun s.sys.pool = (.run task, pool)) :
    TeamInv (s.take j task pool) := by
  have ht := hi.takes hw h
  constructor
  case pool => exact hi.pool.turn h
  case running =>
    obtain ⟨h1, -⟩ | ⟨h1, -⟩ | ⟨-, -, rfl⟩ := threadpoolRun_cases h
    · cases h1
    · cases h1
    · exact hi.running
  case barrier =>
    show BarrierInv s.barrier s.opened s.arrived fun q => (Function.update s.parts (j + 1) .poolTls q).wait
    rw [waits_setPart]
    exact hi.away (congrArg Part.wait ht.out) rfl
  case sub => exact hi.sub.trans (Finset.subset_insert _ _)
  case target => exact hi.target
  case idle => exact fun he => absurd he (Nat.ne_of_lt ht.active)
  case active => exact fun _ => hi.take_active ht
  case members =>
    intro q hq
    obtain rfl | hq := Finset.mem_insert.mp hq
    · exact hi.take_self ht
    · have hm := hi.members q hq
      exact hm.stays rfl (ht.works hq) (Function.update_of_ne (ht.ne hq) _ _) (ht.card ▸ Nat.le_succ _) hm.ahead rfl rfl
  case others =>
    intro q hq
    obtain ⟨hne, hnot⟩ : q ≠ j + 1 ∧ q ∉ s.team := not_or.mp (mt Finset.mem_insert.mpr hq)
    show Over (Function.update s.parts (j + 1) .poolTls q)
    rw [Function.update_of_ne hne]
    exact hi.others q hnot
  case injective => exact hi.take_injective ht
  case workers =>
    intro i hp
    show ∃ task, Function.update s.sys.workers j (.running _) i = .running task
    by_cases hij : i = j
    · rw [hij, Function.update_self]
      exact ⟨_, rfl⟩
    · rw [Function.update_of_ne hij]
      apply hi.workers
      have hne : i + 1 ≠ j + 1 := by omega
      rw [← Function.update_of_ne (f := s.parts) hne]
      exact hp
  case master =>
    have h0 : Function.update s.parts (j + 1) .poolTls 0 = s.parts 0 := Function.update_of_ne (Nat.succ_ne_zero j).symm _ _
    exact MasterAt.part hi.master (by rw [← h0]; exact Iff.rfl)
  case future => exact hi.future
  case past => exact hi.past

end

/-- Who has gone through its region's last barrier leaves it. -/
theorem TeamInv.leaves {m : Master} (hi : TeamInv s) (hp : s.parts p = .waiting 0 .done)
    (hmaster : MasterInv { s.setPart p .out with master := m })
    (hnext : s.opened < s.target → Team.next { s.setPart p .out with master := m } = s.next) :
    TeamInv { s.setPart p .out with master := m } := by
  have hnot := hi.done_notMem hp
  have hw : s.waits p = some .done := congrArg Part.wait hp
  have hat := hi.barrier.thread p
  rw [hw] at hat
  have hbarrier : BarrierInv s.barrier s.opened s.arrived (Function.update s.waits p Part.out.wait) :=
    hi.barrier.move hat (by rw [hw]; exact Iff.rfl) (by rw [hw]; exact Iff.rfl)
  refine ⟨hi.pool, hi.running, ?_, hi.sub, hi.target, hi.idle, ?_, ?_, ?_, hi.injective, ?_, hmaster, hi.future, hi.past⟩
  · show BarrierInv s.barrier s.opened s.arrived fun q => (Function.update s.parts p .out q).wait
    rw [waits_setPart]
    exact hbarrier
  · intro ha
    have hact := hi.active ha
    have hn := hnext ha
    exact ⟨hact.max, hact.master, hn.symm ▸ hact.card, hn.symm ▸ hact.le, hn.symm ▸ hact.queue, hact.early, hact.rest⟩
  · intro q hq
    have hqp : q ≠ p := by
      rintro rfl
      exact hnot hq
    have hm := hi.members q hq
    exact hm.stays rfl rfl (Function.update_of_ne hqp _ _) (Nat.le_refl _) hm.ahead rfl rfl
  · exact fun q hq => forall_update (P := fun q x => q ∉ s.team → Over x) (fun _ => .inl rfl) (fun u _ => hi.others u) q hq
  · intro j hj
    apply hi.workers
    intro ho
    by_cases hjp : j + 1 = p
    · rw [hjp, hp] at ho
      cases ho
    · exact hj ((Function.update_of_ne hjp _ _).trans ho)

theorem TeamInv.leave {j : Nat} (hi : TeamInv s) (hp : s.parts (j + 1) = .waiting 0 .done) :
    TeamInv { s.setPart (j + 1) .out with sys := { s.sys with workers := Function.update s.sys.workers j .ready } } := by
  have h0 : Function.update s.parts (j + 1) .out 0 = s.parts 0 := Function.update_of_ne (Nat.succ_ne_zero j).symm _ _
  have hmaster : MasterInv (s.setPart (j + 1) .out) := MasterAt.part hi.master (by rw [← h0]; exact Iff.rfl)
  have hleft : TeamInv (s.setPart (j + 1) .out) := hi.leaves (m := s.master) hp hmaster fun _ => rfl
  have hpool : Inv { s.sys with workers := Function.update s.sys.workers j .ready } := by
    apply hi.pool.workers
    · intro i h
      exact update_eq_of_ne h (by exact Worker.noConfusion)
    · intro i h
      exact update_eq_of_ne h (by exact Worker.noConfusion)
  refine ⟨hpool, hleft.running, hleft.barrier, hleft.sub, hleft.target, hleft.idle, ?_, ?_, hleft.others, hleft.injective, ?_,
    hleft.master, hleft.future, hleft.past⟩
  · intro ha
    have hact := hleft.active ha
    exact ⟨hact.max, hact.master, hact.card, hact.le, hact.queue, hact.early, hact.rest⟩
  · intro q hq
    have hm := hleft.members q hq
    exact hm.stays rfl rfl rfl (Nat.le_refl _) hm.ahead rfl rfl
  · intro i hne
    have hij : i ≠ j := by
      rintro rfl
      exact hne (Function.update_self _ _ _)
    obtain ⟨task, ht⟩ := hleft.workers i hne
    exact ⟨task, (Function.update_of_ne hij _ _).trans ht⟩

/-- The master of a region that is not over is in its team. -/
theorem TeamInv.pass (hi : TeamInv s) (hp : s.parts 0 = .waiting 0 .done) :
    TeamInv { s.setPart 0 .out with master := .dropping } := by
  have hover : s.opened = s.target := by
    refine Nat.le_antisymm hi.target (Nat.le_of_not_lt ?_)
    intro ha
    exact hi.done_notMem hp (hi.active ha).master
  have hmaster : s.master ≠ .outside := by
    intro hm
    have hout := (hi.at_outside hm).1
    rw [hp] at hout
    cases hout
  have hout : Function.update s.parts 0 .out 0 = .out := Function.update_self _ _ _
  exact hi.leaves hp ⟨hout, hover, hi.started hmaster⟩ fun ha => absurd hover (Nat.ne_of_lt ha)

/-! ## The master outside a region -/

/-- Outside a region, and while it is dropped, nobody is in a team. -/
theorem TeamInv.nobody (hi : TeamInv s) (hover : s.opened = s.target) : s.arrived = ∅ ∧ ∀ u, ¬ Coming (s.waits u) := by
  have hteam := (hi.idle hover).1
  refine ⟨Finset.subset_empty.mp (hteam ▸ hi.sub), ?_⟩
  intro u hu
  have hmem := hi.coming_mem hu
  rw [hteam] at hmem
  exact absurd hmem (Finset.notMem_empty u)

theorem TeamInv.drop (hi : TeamInv s) (hm : s.master = .dropping) : TeamInv { s with array := none, master := .outside } := by
  obtain ⟨hout, hover, -, -⟩ := hi.at_dropping hm
  have hteam := (hi.idle hover).1
  refine ⟨hi.pool, hi.running, hi.barrier, hi.sub, hi.target, hi.idle, fun ha => absurd hover (Nat.ne_of_lt ha), ?_, hi.others,
    hi.injective, hi.workers, ⟨hout, hover, rfl⟩, hi.future, hi.past⟩
  intro q hq
  have hq' : q ∈ s.team := hq
  rw [hteam] at hq'
  exact absurd hq' (Finset.notMem_empty q)

/-- The number of threads changes: the barrier's and, where it grows, the workers. -/
theorem TeamInv.resize {sys : Sys} {num : UInt32} (hi : TeamInv s) (hm : s.master = .outside) (hpool : Inv sys)
    (hrunning : sys.pool.shutdown = false) (hqueue : sys.pool.queued = s.sys.pool.queued) (hworkers : sys.workers = s.sys.workers) :
    TeamInv { s with sys := sys, barrier := barrierUpdateMax s.barrier num, numThreads := num } := by
  obtain ⟨hout, hover, harray⟩ := hi.at_outside hm
  obtain ⟨harrived, hnobody⟩ := hi.nobody hover
  have hteam := (hi.idle hover).1
  refine ⟨hpool, hrunning, ?_, hi.sub, hi.target, fun he => ⟨hteam, hqueue.trans (hi.idle he).2⟩, fun ha => absurd hover (Nat.ne_of_lt ha), ?_,
    hi.others, hi.injective, ?_, hi.master, hi.future, hi.past⟩
  · show BarrierInv (barrierUpdateMax s.barrier num) s.opened s.arrived s.waits
    have hb := hi.barrier
    rw [harrived] at hb ⊢
    exact hb.updateMax num fun u hu => hnobody u hu.coming
  · intro q hq
    have hq' : q ∈ s.team := hq
    rw [hteam] at hq'
    exact absurd hq' (Finset.notMem_empty q)
  · show ∀ j, s.parts (j + 1) ≠ .out → ∃ task, sys.workers j = .running task
    rw [hworkers]
    exact hi.workers

theorem TeamInv.setNumThreads {num : Int32} {created : Nat} (hi : TeamInv s) (hm : s.master = .outside)
    (hcreated : missing s num ≤ created) : TeamInv (ompSetNumThreads s num created) := by
  have hset : ∀ sys : Sys, Inv sys → sys.pool.shutdown = false → sys.pool.queued = s.sys.pool.queued → sys.workers = s.sys.workers →
      TeamInv { s with sys := sys, barrier := barrierUpdateMax s.barrier num.toUInt32, numThreads := num.toUInt32 } :=
    fun _ => hi.resize hm
  unfold ompSetNumThreads
  dsimp only
  split
  · rw [if_neg (Nat.not_lt_of_le hcreated)]
    refine hset (s.sys.grow (missing s num)) ?_ hi.running rfl rfl
    exact ⟨hi.pool.size, hi.pool.head, hi.pool.nonneg, hi.pool.le, hi.pool.tail, hi.pool.fifo, hi.pool.asleep, hi.pool.left⟩
  · split
    · exact hset s.sys hi.pool hi.running rfl rfl
    · split
      · exact hset s.sys hi.pool hi.running rfl rfl
      · exact hi

theorem getLastD_concat (rs : List Region) (r d : Region) : (rs ++ [r]).getLastD d = r := by
  rw [List.getLastD_eq_getLast?, List.getLast?_concat]
  rfl

section
variable {barriers : Nat}

theorem start_region : (s.start barriers).region = ⟨s.numThreads.toNat, barriers⟩ := getLastD_concat _ _ _

theorem start_current : (s.start barriers).current = s.regions.length := by
  show (s.regions ++ [_]).length - 1 = _
  rw [List.length_append]
  rfl

/-- The barrier is for the members of the region that starts. -/
theorem TeamInv.start_active (hi : TeamInv s) (hover : s.opened = s.target) (hmax : s.barrier.max = s.numThreads)
    (hpos : 1 ≤ s.numThreads.toNat) : ActiveInv (s.start barriers) where
  max := by
    rw [start_region]
    exact congrArg UInt32.toNat hmax
  master := Finset.mem_singleton_self 0
  card := Nat.le_refl 1
  le := by
    rw [start_region]
    exact hpos
  queue := (hi.idle hover).2
  early _ := by
    rw [start_region]
    rfl
  rest i _ := by
    rw [start_current]
    exact hi.future s.regions.length i (Nat.le_refl _)

/-- The master is its first member. -/
theorem TeamInv.start_self (hi : TeamInv s) (hout : s.parts 0 = .out) : MemberInv (s.start barriers) 0 := by
  have hwork : (s.start barriers).works 0 = (s.regions.length, 0) := by
    show Function.update s.works 0 (s.regions.length, 0) 0 = _
    exact Function.update_self _ _ _
  have hpart : (s.start barriers).parts 0 = .out := hout
  obtain ⟨hbegan, hfinished⟩ := hi.future s.regions.length 0 (Nat.le_refl _)
  constructor
  case region => rw [hwork, start_current]
  case lt =>
    rw [hwork]
    exact Nat.zero_lt_one
  case ahead =>
    rw [hpart]
    refine ⟨rfl, ?_⟩
    rw [start_region]
    rfl
  case began =>
    rw [hwork, hpart]
    exact hbegan
  case finished =>
    rw [hwork, hpart]
    exact hfinished

/-- A region is started: its team is the master, its queue is empty. -/
theorem TeamInv.start (hi : TeamInv s) (hm : s.master = .outside) (hmax : s.barrier.max = s.numThreads)
    (hpos : 1 ≤ s.numThreads.toNat) : TeamInv (s.start barriers) := by
  obtain ⟨hout, hover, -⟩ := hi.at_outside hm
  obtain ⟨hteam, -⟩ := hi.idle hover
  obtain ⟨harrived, -⟩ := hi.nobody hover
  have hne : s.regions ++ [(⟨s.numThreads.toNat, barriers⟩ : Region)] ≠ [] := List.append_ne_nil_of_right_ne_nil _ (List.cons_ne_nil _ _)
  have hahead : s.opened < s.opened + barriers + 1 := by omega
  constructor
  case pool => exact hi.pool
  case running => exact hi.running
  case barrier => exact hi.barrier
  case sub =>
    show s.arrived ⊆ {0}
    rw [harrived]
    exact Finset.empty_subset _
  case target => exact Nat.le_of_lt hahead
  case idle => exact fun he => absurd he (Nat.ne_of_lt hahead)
  case active => exact fun _ => hi.start_active hover hmax hpos
  case members =>
    intro q hq
    obtain rfl := Finset.mem_singleton.mp hq
    exact hi.start_self hout
  case others =>
    intro q _
    apply hi.others
    rw [hteam]
    exact Finset.notMem_empty q
  case injective =>
    intro q r hq hr _
    rw [Finset.mem_singleton.mp hq, Finset.mem_singleton.mp hr]
  case workers => exact hi.workers
  case master => exact ⟨hout, hahead, congrArg some start_current.symm, hne⟩
  case future =>
    intro k i hk
    have hk' : (s.regions ++ [(⟨s.numThreads.toNat, barriers⟩ : Region)]).length ≤ k := hk
    rw [List.length_append, List.length_singleton] at hk'
    exact hi.future k i (by omega)
  case past =>
    intro k r hk hpast i
    have hcurrent : (s.start barriers).current = s.regions.length := start_current
    have hlt : k < s.regions.length := by
      rw [← hcurrent]
      exact hpast.resolve_right (Nat.ne_of_lt hahead)
    exact hi.past k r ((List.getElem?_append_left hlt).symm.trans hk) (.inr hover) i

end

/-- The master queues the next member's task. -/
theorem TeamInv.add {i : Nat} (hi : TeamInv s) (hm : s.master = .starting i) (hlt : i < s.region.size)
    (hroom : s.sys.pool.count < s.sys.pool.queueSize) :
    TeamInv { s with sys := s.sys.add (workTask s.current i), master := .starting (i + 1) } := by
  obtain ⟨hout, ha, harray, hne⟩ := hi.at_starting hm
  have hact := hi.active ha
  have hnext : s.next = i := by
    unfold Team.next
    rw [hm]
  have hcard := hact.card
  rw [hnext] at hcard
  obtain ⟨r, pool, hadd⟩ : ∃ r pool, threadpoolAdd s.sys.pool (workTask s.current i) = (r, pool) := ⟨_, _, rfl⟩
  have hr : r = .added := by
    unfold threadpoolAdd at hadd
    rw [if_neg (show (workTask s.current i).fn ≠ 0 from Nat.one_ne_zero)] at hadd
    dsimp only at hadd
    rw [if_neg (by omega), hi.running] at hadd
    exact (congrArg Prod.fst hadd).symm
  subst hr
  have hsys : s.sys.add (workTask s.current i) =
      { s.sys with pool := pool, workers := fun i => (s.sys.workers i).woken, accepted := s.sys.accepted ++ [workTask s.current i] } := by
    unfold Sys.add
    rw [hadd]
  have hqueue : pool.queued = (List.range' s.team.card (i + 1 - s.team.card)).map (workTask s.current) := by
    rw [hi.pool.queued_add hadd, hact.queue, hnext, show i + 1 - s.team.card = i - s.team.card + 1 by omega, List.range'_concat,
      List.map_append, show s.team.card + 1 * (i - s.team.card) = i by omega]
    rfl
  rw [hsys]
  refine ⟨hi.pool.add hadd, ?_, hi.barrier, hi.sub, hi.target, fun he => absurd he (Nat.ne_of_lt ha), ?_, ?_, hi.others, hi.injective, ?_,
    ⟨hout, ha, harray, hne⟩, hi.future, hi.past⟩
  · obtain ⟨hr, -⟩ | ⟨-, -, -, rfl⟩ := threadpoolAdd_cases hadd
    · exact absurd rfl hr
    · exact hi.running
  · intro _
    refine ⟨hact.max, hact.master, ?_, hlt, hqueue, hact.early, hact.rest⟩
    show s.team.card ≤ i + 1
    omega
  · intro q hq
    have hm := hi.members q hq
    exact hm.stays rfl rfl rfl (Nat.le_refl _) hm.ahead rfl rfl
  · intro j hj
    obtain ⟨task, ht⟩ := hi.workers j hj
    refine ⟨task, ?_⟩
    show (s.sys.workers j).woken = _
    rw [ht]
    rfl

/-! ## Runs -/

/-- The condition on a step, in the state before it. -/
def Met (s : Team) : Act → Prop
  | .setNumThreads num created => missing s num ≤ created
  | .start _ => s.barrier.max = s.numThreads ∧ 1 ≤ s.numThreads.toNat
  | .add => s.sys.pool.count < s.sys.pool.queueSize
  | .access p => NotMistaken s.barrier s.arrived p (s.waits p)
  | .other => True

/-- Every step that meets the condition keeps the invariant. -/
theorem TeamStep.inv {s' : Team} {a : Act} (h : TeamStep s a s') (hi : TeamInv s) (hmet : Met s a) : TeamInv s' := by
  cases h with
  | setNumThreads num created hm => exact hi.setNumThreads hm hmet
  | start barriers hm => exact hi.start hm hmet.1 hmet.2
  | add hm hlt => exact hi.add hm hlt hmet
  | enter hm hle => exact hi.enter hm hle
  | idle j hj hw h ht => exact hi.idleTurn hw h ht
  | take j hj hw h => exact hi.take hw h
  | spurious j hw => exact hi.spurious hw
  | poolTls p hp => exact hi.poolTls hp
  | fnTls p hp => exact hi.fnTls hp
  | barrier p hp => exact hi.barrier_call hp
  | finish p hp => exact hi.finish hp
  | @access l v v' e b p hp h =>
    have hlate : NotMistaken s.barrier s.arrived p (some v) := by
      have : NotMistaken s.barrier s.arrived p (s.waits p) := hmet
      rwa [show s.waits p = some v from congrArg Part.wait hp] at this
    cases e with
    | quiet => exact hi.access_quiet hp h hlate
    | arrives => exact hi.access_arrives hp h hlate
    | opens => exact hi.access_opens hp h
  | resume p hp => exact hi.resume hp
  | leave j hp => exact hi.leave hp
  | pass hp => exact hi.pass hp
  | drop hm => exact hi.drop hm

end

theorem createTeam_inv {numThreads queueSize : Int} {fresh : Nat → Task} {pool : Pool}
    (h : threadpoolCreate numThreads queueSize fresh = some pool) : TeamInv (createTeam pool numThreads) := by
  have hpool := initial_inv h
  have hempty : pool.queued = [] ∧ pool.shutdown = false := by
    unfold threadpoolCreate at h
    split at h
    · cases h
    · cases h
      exact ⟨rfl, rfl⟩
  constructor
  case pool => exact hpool
  case running => exact hempty.2
  case barrier =>
    exact ⟨rfl, Nat.zero_le _, fun _ => rfl, fun _ h => h.elim, fun t => Finset.notMem_empty t, fun _ _ h => h.elim,
      fun hpos h => absurd h (Nat.ne_of_lt hpos)⟩
  case sub => exact Finset.empty_subset _
  case target => exact Nat.le_refl _
  case idle => exact fun _ => ⟨rfl, hempty.1⟩
  case active => exact fun h => absurd h (Nat.lt_irrefl _)
  case members => exact fun p hp => absurd hp (Finset.notMem_empty p)
  case others => exact fun _ _ => .inl rfl
  case injective => exact fun p _ hp => absurd hp (Finset.notMem_empty p)
  case workers => exact fun j hj => absurd rfl hj
  case master => exact ⟨rfl, rfl, rfl⟩
  case future => exact fun _ _ _ => ⟨rfl, rfl⟩
  case past => exact fun _ _ hk => nomatch hk

/-- A run whose steps all meet the condition. -/
def MetStep (s s' : Team) : Prop := ∃ a, TeamStep s a s' ∧ Met s a

theorem team_reachable_inv {numThreads queueSize : Int} {fresh : Nat → Task} {pool : Pool} {s : Team}
    (h : threadpoolCreate numThreads queueSize fresh = some pool) (hr : Relation.ReflTransGen MetStep (createTeam pool numThreads) s) :
    TeamInv s := by
  induction hr with
  | refl => exact createTeam_inv h
  | tail _ hstep ih =>
    obtain ⟨a, hstep, hmet⟩ := hstep
    exact hstep.inv ih hmet

/-! ## Regions -/

/-- The regions that were started, up to this state. -/
structure RegionsComplete (s : Team) : Prop where
  /-- Nobody calls a region's function but its members, once. -/
  once : ∀ k i, s.began (k, i) ≤ 1
  members : ∀ k i, s.began (k, i) ≠ 0 → ∃ r, s.regions[k]? = some r ∧ i < r.size
  /-- When the master has gone through a region's last barrier, all members have returned from
      their call. -/
  complete : ∀ k r, s.regions[k]? = some r → (k < s.current ∨ s.master = .outside ∨ s.master = .dropping) →
    ∀ i, i < r.size → s.began (k, i) = 1 ∧ s.finished (k, i) = 1
  /-- Until then, no member's work is lost. -/
  underway : s.opened < s.target → ∀ i, i < s.region.size →
    s.next ≤ i ∨ workTask s.current i ∈ s.sys.pool.queued ∨ ∃ p, p ∈ s.team ∧ s.works p = (s.current, i)
  /-- Who sets its thread-local data finds the array of its region, and so does the master. -/
  own : ∀ p, s.parts p = .poolTls ∨ s.parts p = .fnTls → s.array = some (s.works p).1
  kept : s.master = .inside ∨ s.master = .dropping → s.array = some s.current

section
variable {s : Team}

theorem TeamInv.over (hi : TeamInv s) (h : s.master = .outside ∨ s.master = .dropping) : s.opened = s.target := by
  obtain h | h := h
  · exact (hi.at_outside h).2.1
  · exact (hi.at_dropping h).2.1

/-- The calls of a region that is over, and of the last one while it is not. -/
theorem TeamInv.calls (hi : TeamInv s) (k i : Nat) : s.began (k, i) ≤ 1 ∧
    (s.began (k, i) ≠ 0 → ∃ r, s.regions[k]? = some r ∧ i < r.size) := by
  by_cases hk : k < s.regions.length
  · have hr := List.getElem?_eq_getElem hk
    by_cases hpast : k < s.current ∨ s.opened = s.target
    · have hcount := (hi.past k _ hr hpast i).1
      split at hcount
      · rename_i hlt
        exact ⟨Nat.le_of_eq hcount, fun _ => ⟨_, hr, hlt⟩⟩
      · exact ⟨by omega, fun h => absurd hcount h⟩
    · obtain ⟨hcur, hover⟩ := not_or.mp hpast
      have ha : s.opened < s.target := Nat.lt_of_le_of_ne hi.target hover
      have hact := hi.active ha
      have hlast := (Team.current_region (hi.regions_ne ha)).2
      have hk' : k = s.current := by
        unfold Team.current at hcur ⊢
        omega
      subst hk'
      by_cases hlt : i < s.team.card
      · obtain ⟨p, hp, hwork⟩ := hi.member hlt
        have hcount := (hi.members p hp).began
        rw [hwork] at hcount
        refine ⟨?_, fun _ => ⟨_, hlast, ?_⟩⟩
        · rw [hcount]
          exact (s.parts p).began_le
        · have := hact.card
          have := hact.le
          omega
      · have h0 := (hact.rest i (Nat.le_of_not_lt hlt)).1
        exact ⟨by omega, fun h => absurd h0 h⟩
  · have h0 := (hi.future k i (Nat.le_of_not_lt hk)).1
    exact ⟨by omega, fun h => absurd h0 h⟩

end

/-- For a pool of any size, any calls of `omp_set_num_threads` outside regions and any number of
    regions, in every run whose steps meet the condition. -/
theorem regions_complete (numThreads queueSize : Int) (fresh : Nat → Task) (pool : Pool) (s : Team)
    (hc : threadpoolCreate numThreads queueSize fresh = some pool)
    (hr : Relation.ReflTransGen MetStep (createTeam pool numThreads) s) : RegionsComplete s := by
  have hi := team_reachable_inv hc hr
  constructor
  case once => exact fun k i => (hi.calls k i).1
  case members => exact fun k i => (hi.calls k i).2
  case complete =>
    intro k r hk hover i hlt
    have hcount := hi.past k r hk (hover.imp_right hi.over) i
    rwa [if_pos hlt] at hcount
  case underway =>
    intro ha i _
    have hact := hi.active ha
    by_cases hn : s.next ≤ i
    · exact .inl hn
    · by_cases hlt : i < s.team.card
      · exact .inr (.inr (hi.member hlt))
      · refine .inr (.inl ?_)
        rw [hact.queue]
        apply List.mem_map_of_mem
        rw [List.mem_range'_1]
        omega
  case own =>
    intro p hp
    have hmem : p ∈ s.team := by
      apply hi.mem
      obtain hp | hp := hp
      · rw [hp]
        exact Over.not_poolTls
      · rw [hp]
        exact Over.not_fnTls
    rw [(hi.members p hmem).region]
    refine (hi.started ?_).1
    intro hm
    exact absurd (hi.over (.inl hm)) (Nat.ne_of_lt (hi.active_of_mem hmem))
  case kept =>
    intro hm
    refine (hi.started ?_).1
    obtain hm | hm := hm
    · rw [hm]
      exact Master.noConfusion
    · rw [hm]
      exact Master.noConfusion

/-- A pool of one worker, as it is set up. -/
def onePool : Pool := ⟨fun _ => ⟨0, 0⟩, 1, 4, 0, 0, 0, false, 1⟩

/-- The number of threads is set to 1 and back to 2, and a region of both is gone through. -/
theorem regions_complete_resized : ∃ s, Relation.ReflTransGen MetStep (createTeam onePool 1) s ∧ s.master = .dropping ∧
    s.regions.length = 1 ∧ s.region.size = 2 ∧ RegionsComplete s := by
  have h0 : Relation.ReflTransGen MetStep (createTeam onePool 1) _ := .single ⟨_, .setNumThreads 1 0 rfl, Nat.le_refl 0⟩
  have h1 := ((h0.tail ⟨_, .setNumThreads 2 1 rfl, Nat.le_refl 1⟩).tail ⟨_, .start 0 rfl, rfl, show 1 ≤ 2 by decide⟩).tail
    ⟨_, .add rfl (by decide), show (0 : Int) < 4 by decide⟩
  have h2 := ((h1.tail ⟨_, .enter rfl (by decide), trivial⟩).tail ⟨_, .take 0 (by decide) rfl rfl, trivial⟩).tail ⟨_, .poolTls 1 rfl, trivial⟩
  have h3 := ((h2.tail ⟨_, .fnTls 1 rfl, trivial⟩).tail ⟨_, .finish 1 rfl, trivial⟩).tail ⟨_, .access 1 rfl .sample, trivial⟩
  have h4 := (h3.tail ⟨_, .access 1 rfl (.add 0), trivial⟩).tail
    ⟨_, .access 1 rfl (.readMax 0 0), fun h => absurd (Finset.mem_insert_self 1 _) h⟩
  have h5 := ((h4.tail ⟨_, .finish 0 rfl, trivial⟩).tail ⟨_, .access 0 rfl .sample, trivial⟩).tail ⟨_, .access 0 rfl (.add 0), trivial⟩
  have h6 := (h5.tail ⟨_, .access 0 rfl (.readMax 0 1), fun h => absurd (Finset.mem_insert_self 0 _) h⟩).tail
    ⟨_, .access 0 rfl .reset, trivial⟩
  have h7 := ((h6.tail ⟨_, .access 0 rfl .toggle, trivial⟩).tail ⟨_, .access 0 rfl (.flip 0), trivial⟩).tail ⟨_, .pass rfl, trivial⟩
  exact ⟨_, h7, rfl, rfl, rfl, regions_complete 1 4 (fun _ => ⟨0, 0⟩) onePool _ rfl h7⟩

/-- The barrier of a new pool is for its workers, without the master: the one of a region on it
    opens for the master alone, whose worker then finds no array. -/
theorem new_pool_returns_early : threadpoolCreate 1 4 (fun _ => ⟨0, 0⟩) = some onePool ∧
    ∃ s, Relation.ReflTransGen (fun s s' => ∃ a, TeamStep s a s') (createTeam onePool 1) s ∧ s.regions.length = 1 ∧
      s.master = .outside ∧ s.began (0, 1) = 0 ∧ s.parts 1 = .poolTls ∧ s.array = none ∧ ¬ RegionsComplete s := by
  have h0 : Relation.ReflTransGen (fun s s' => ∃ a, TeamStep s a s') (createTeam onePool 1) _ := .single ⟨_, .start 0 rfl⟩
  have h1 := ((h0.tail ⟨_, .add rfl (by decide)⟩).tail ⟨_, .enter rfl (by decide)⟩).tail ⟨_, .finish 0 rfl⟩
  have h2 := ((h1.tail ⟨_, .access 0 rfl .sample⟩).tail ⟨_, .access 0 rfl (.add 0)⟩).tail ⟨_, .access 0 rfl (.readMax 0 0)⟩
  have h3 := ((h2.tail ⟨_, .access 0 rfl .reset⟩).tail ⟨_, .access 0 rfl .toggle⟩).tail ⟨_, .access 0 rfl (.flip 0)⟩
  have h4 := ((h3.tail ⟨_, .pass rfl⟩).tail ⟨_, .drop rfl⟩).tail ⟨_, .take 0 (by decide) rfl rfl⟩
  refine ⟨rfl, _, h4, rfl, rfl, rfl, rfl, rfl, ?_⟩
  intro hcomplete
  have hnone := hcomplete.own 1 (.inl rfl)
  cases hnone

end Popcorn.Bomp
