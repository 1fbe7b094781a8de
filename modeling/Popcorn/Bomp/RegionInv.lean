/-
  Popcorn.Bomp.RegionInv — the invariant of parallel regions (see `Popcorn.Bomp.Region`).

  While a region is active, its tasks are queued in the order of its members and taken in that
  order, so the members that have been taken are as many as the team has (`TeamInv.member`); a
  round of the barrier is full once all of them have arrived (`TeamInv.full`), and the last
  round empties the team.

  Proved: a member that goes on keeps the invariant (`TeamInv.advance`), and so does an access
  to the barrier by whoever waits there (`TeamInv.access_quiet`, `access_arrives`,
  `access_opens`), where it is not mistaken.
-/

import Mathlib.Data.Finset.Card
import Popcorn.Bomp.Region

namespace Popcorn.Bomp

/-! ## The invariant -/

/-- How many calls of the function a participant's work has seen begin, and return. -/
def Part.began : Part → Nat
  | .inFn _ | .waiting _ _ => 1
  | _ => 0

def Part.finished : Part → Nat
  | .waiting 0 _ => 1
  | _ => 0

theorem Part.began_le (x : Part) : x.began ≤ 1 := by
  cases x with
  | inFn l => exact Nat.le_refl 1
  | waiting l w => exact Nat.le_refl 1
  | _ => exact Nat.zero_le 1

/-- The member up to which the master has queued tasks. -/
def Team.next (s : Team) : Nat :=
  match s.master with
  | .starting i => i
  | _ => s.region.size

/-- The rounds that are ahead of a member, by what it is doing. -/
def Ahead (s : Team) (p : Nat) : Part → Prop
  | .out => p = 0 ∧ s.opened + s.region.barriers + 1 = s.target
  | .poolTls | .fnTls => s.opened + s.region.barriers + 1 = s.target
  | .inFn l => s.opened + l + 1 = s.target
  | .waiting l w => (p ∈ s.arrived ∨ Coming (some w) → s.opened + l + 1 = s.target) ∧
      (p ∉ s.arrived → ¬ Coming (some w) → s.opened + l = s.target)

structure MemberInv (s : Team) (p : Nat) : Prop where
  region : (s.works p).1 = s.current
  lt : (s.works p).2 < s.team.card
  ahead : Ahead s p (s.parts p)
  began : s.began (s.works p) = (s.parts p).began
  finished : s.finished (s.works p) = (s.parts p).finished

/-- While the last region is not over. -/
structure ActiveInv (s : Team) : Prop where
  max : s.barrier.max.toNat = s.region.size
  master : 0 ∈ s.team
  card : s.team.card ≤ s.next
  le : s.next ≤ s.region.size
  queue : s.sys.pool.queued = (List.range' s.team.card (s.next - s.team.card)).map (workTask s.current)
  early : s.team.card < s.region.size → s.opened + s.region.barriers + 1 = s.target
  rest : ∀ i, s.team.card ≤ i → s.began (s.current, i) = 0 ∧ s.finished (s.current, i) = 0

/-- What the master's place says, `x` being its part in the region. -/
def MasterAt (x : Part) (opened target : Nat) (array : Option Nat) (regions : List Region) : Master → Prop
  | .outside => x = .out ∧ opened = target ∧ array = none
  | .starting _ => x = .out ∧ opened < target ∧ array = some (regions.length - 1) ∧ regions ≠ []
  | .inside => x ≠ .out ∧ array = some (regions.length - 1) ∧ regions ≠ []
  | .dropping => x = .out ∧ opened = target ∧ array = some (regions.length - 1) ∧ regions ≠ []
  | .gone => False

def MasterInv (s : Team) : Prop := MasterAt (s.parts 0) s.opened s.target s.array s.regions s.master

/-- Nobody is on the way to a barrier, or anywhere but in the wait at the end of a region. -/
def Over (x : Part) : Prop := x = .out ∨ ∃ w, x = .waiting 0 w ∧ ¬ Coming (some w)

structure TeamInv (s : Team) : Prop where
  pool : Inv s.sys
  running : s.sys.pool.shutdown = false
  barrier : BarrierInv s.barrier s.opened s.arrived s.waits
  sub : s.arrived ⊆ s.team
  target : s.opened ≤ s.target
  idle : s.opened = s.target → s.team = ∅ ∧ s.sys.pool.queued = []
  active : s.opened < s.target → ActiveInv s
  members : ∀ p, p ∈ s.team → MemberInv s p
  others : ∀ p, p ∉ s.team → Over (s.parts p)
  injective : ∀ p q, p ∈ s.team → q ∈ s.team → s.works p = s.works q → p = q
  workers : ∀ j, s.parts (j + 1) ≠ .out → ∃ task, s.sys.workers j = .running task
  master : MasterInv s
  future : ∀ k i, s.regions.length ≤ k → s.began (k, i) = 0 ∧ s.finished (k, i) = 0
  past : ∀ k r, s.regions[k]? = some r → (k < s.current ∨ s.opened = s.target) → ∀ i,
    s.began (k, i) = (if i < r.size then 1 else 0) ∧ s.finished (k, i) = if i < r.size then 1 else 0

theorem waits_setPart (s : Team) (p : Nat) (x : Part) :
    (fun q => (Function.update s.parts p x q).wait) = Function.update s.waits p x.wait := by
  funext q
  by_cases hq : q = p
  · subst hq
    rw [Function.update_self, Function.update_self]
  · rw [Function.update_of_ne hq, Function.update_of_ne hq]
    rfl

section
variable {s : Team} {p : Nat}

theorem TeamInv.active_of_mem (hi : TeamInv s) (hp : p ∈ s.team) : s.opened < s.target := by
  refine Nat.lt_of_le_of_ne hi.target ?_
  intro he
  rw [(hi.idle he).1] at hp
  exact absurd hp (Finset.notMem_empty p)

theorem TeamInv.at_outside (hi : TeamInv s) (hm : s.master = .outside) : s.parts 0 = .out ∧ s.opened = s.target ∧ s.array = none := by
  have h := hi.master
  unfold MasterInv at h
  rwa [hm] at h

theorem TeamInv.at_starting (hi : TeamInv s) {i : Nat} (hm : s.master = .starting i) :
    s.parts 0 = .out ∧ s.opened < s.target ∧ s.array = some s.current ∧ s.regions ≠ [] := by
  have h := hi.master
  unfold MasterInv at h
  rwa [hm] at h

theorem TeamInv.at_dropping (hi : TeamInv s) (hm : s.master = .dropping) :
    s.parts 0 = .out ∧ s.opened = s.target ∧ s.array = some s.current ∧ s.regions ≠ [] := by
  have h := hi.master
  unfold MasterInv at h
  rwa [hm] at h

/-- Once the master has started a region, the array is there. -/
theorem TeamInv.started (hi : TeamInv s) (hm : s.master ≠ .outside) : s.array = some s.current ∧ s.regions ≠ [] := by
  have h := hi.master
  unfold MasterInv at h
  cases hmaster : s.master with
  | outside => exact absurd hmaster hm
  | starting i =>
    rw [hmaster] at h
    exact h.2.2
  | inside =>
    rw [hmaster] at h
    exact h.2
  | dropping =>
    rw [hmaster] at h
    exact h.2.2
  | gone =>
    rw [hmaster] at h
    exact h.elim

theorem TeamInv.regions_ne (hi : TeamInv s) (ha : s.opened < s.target) : s.regions ≠ [] :=
  (hi.started fun hm => Nat.ne_of_lt ha (hi.at_outside hm).2.1).2

theorem Team.current_region (h : s.regions ≠ []) : s.current < s.regions.length ∧ s.regions[s.current]? = some s.region := by
  have hpos : 0 < s.regions.length := List.length_pos_iff.mpr h
  unfold Team.current Team.region
  refine ⟨by omega, ?_⟩
  rw [List.getLastD_eq_getLast?, List.getLast?_eq_getElem?, List.getElem?_eq_getElem (by omega)]
  rfl

/-- Every member up to the size of the team is one of the team's. -/
theorem TeamInv.member (hi : TeamInv s) {i : Nat} (h : i < s.team.card) : ∃ p, p ∈ s.team ∧ s.works p = (s.current, i) := by
  have hcard : (s.team.image fun p => (s.works p).2).card = s.team.card := by
    apply Finset.card_image_of_injOn
    intro p hp q hq he
    apply hi.injective p q hp hq
    exact Prod.ext ((hi.members p hp).region.trans (hi.members q hq).region.symm) he
  have himage : (s.team.image fun p => (s.works p).2) = Finset.range s.team.card := by
    apply Finset.eq_of_subset_of_card_le
    · intro j hj
      obtain ⟨q, hq, rfl⟩ := Finset.mem_image.mp hj
      exact Finset.mem_range.mpr (hi.members q hq).lt
    · rw [hcard, Finset.card_range]
  have hmem : i ∈ s.team.image fun p => (s.works p).2 := by
    rw [himage]
    exact Finset.mem_range.mpr h
  obtain ⟨p, hp, rfl⟩ := Finset.mem_image.mp hmem
  exact ⟨p, hp, Prod.ext (hi.members p hp).region rfl⟩

/-- Who is out of a region is not in its team, but for a master that is still starting it. -/
theorem TeamInv.out_notMem (hi : TeamInv s) (h : s.parts p = .out) (h0 : p ≠ 0) : p ∉ s.team := by
  intro hp
  have ha := (hi.members p hp).ahead
  rw [h] at ha
  exact h0 ha.1

theorem TeamInv.ready_out (hi : TeamInv s) {j : Nat} (hw : ∀ task, s.sys.workers j ≠ .running task) : s.parts (j + 1) = .out := by
  by_contra hne
  obtain ⟨task, ht⟩ := hi.workers j hne
  exact hw task ht

/-- Who is done with the wait at the end of a region has left its team. -/
theorem TeamInv.done_notMem (hi : TeamInv s) (h : s.parts p = .waiting 0 .done) : p ∉ s.team := by
  intro hp
  have hat := hi.barrier.thread p
  rw [show s.waits p = some .done from congrArg Part.wait h] at hat
  have ha := (hi.members p hp).ahead
  rw [h] at ha
  have := ha.2 hat id
  have := hi.active_of_mem hp
  omega

/-- Who is on the way to the barrier is in the team. -/
theorem TeamInv.coming_mem (hi : TeamInv s) (h : Coming (s.waits p)) : p ∈ s.team := by
  by_contra hn
  unfold Team.waits at h
  obtain ho | ⟨w, hw, hc⟩ := hi.others p hn
  · rw [ho] at h
    exact h
  · rw [hw] at h
    exact hc h

/-- A full round: all members have been taken and have arrived. -/
theorem TeamInv.full (hi : TeamInv s) (ha : s.opened < s.target) (hfull : Full s.barrier s.arrived) :
    s.arrived = s.team ∧ s.team.card = s.region.size ∧ s.next = s.region.size := by
  have hact := hi.active ha
  have hle := Finset.card_le_card hi.sub
  have hcard := hact.card
  have hsize := hact.le
  unfold Full at hfull
  rw [hact.max] at hfull
  refine ⟨Finset.eq_of_subset_of_card_le hi.sub (by omega), by omega, by omega⟩

/-- Who has arrived is waiting, and no longer on the way. -/
theorem TeamInv.arrived_waiting (hi : TeamInv s) (hp : p ∈ s.arrived) :
    ∃ l w, s.parts p = .waiting l w ∧ ¬ Coming (some w) ∧ s.opened + l + 1 = s.target := by
  have hat := hi.barrier.thread p
  have ha := (hi.members p (hi.sub hp)).ahead
  unfold Team.waits at hat
  cases hx : s.parts p with
  | waiting l w =>
    rw [hx] at hat ha
    exact ⟨l, w, rfl, fun hc => absurd hp (hc.not_arrived hat), ha.1 (.inl hp)⟩
  | out =>
    rw [hx] at hat
    exact absurd hp hat
  | poolTls =>
    rw [hx] at hat
    exact absurd hp hat
  | fnTls =>
    rw [hx] at hat
    exact absurd hp hat
  | inFn l =>
    rw [hx] at hat
    exact absurd hp hat

theorem MasterAt.part {x x' : Part} {opened target : Nat} {array : Option Nat} {regions : List Region} {m : Master}
    (h : MasterAt x opened target array regions m) (hx : x' = .out ↔ x = .out) : MasterAt x' opened target array regions m := by
  unfold MasterAt Ne at h ⊢
  rw [hx]
  exact h

/-- The rounds ahead are the same while the round and the region are. -/
theorem Ahead.congr {s' : Team} {x : Part} (h : Ahead s p x) (hopened : s'.opened = s.opened) (hregion : s'.region = s.region)
    (htarget : s'.target = s.target) (hiff : p ∈ s'.arrived ↔ p ∈ s.arrived) : Ahead s' p x := by
  unfold Ahead at h ⊢
  rw [hopened, hregion, htarget, hiff]
  exact h

/-- A member that takes no step, in a team that only gains members. -/
theorem MemberInv.stays {s' : Team} (h : MemberInv s p) (hcurrent : s'.current = s.current) (hworks : s'.works p = s.works p)
    (hparts : s'.parts p = s.parts p) (hcard : s.team.card ≤ s'.team.card) (hahead : Ahead s' p (s.parts p))
    (hbegan : s'.began (s.works p) = s.began (s.works p)) (hfinished : s'.finished (s.works p) = s.finished (s.works p)) :
    MemberInv s' p where
  region := by rw [hworks, hcurrent, h.region]
  lt := by
    rw [hworks]
    exact Nat.lt_of_lt_of_le h.lt hcard
  ahead := by
    rw [hparts]
    exact hahead
  began := by rw [hworks, hbegan, hparts, h.began]
  finished := by rw [hworks, hfinished, hparts, h.finished]

/-- A participant in a region stays in it. -/
theorem setPart_out {x : Part} (hx : x ≠ .out) (hold : s.parts p ≠ .out) (q : Nat) :
    Function.update s.parts p x q = .out ↔ s.parts q = .out := by
  by_cases hq : q = p
  · subst hq
    rw [Function.update_self]
    exact ⟨fun h => absurd h hx, fun h => absurd h hold⟩
  · rw [Function.update_of_ne hq]

theorem MasterInv.setPart {x : Part} {bg fin : Nat × Nat → Nat} (h : MasterInv s) (hx : x ≠ .out) (hold : s.parts p ≠ .out) :
    MasterInv { s with parts := Function.update s.parts p x, began := bg, finished := fin } :=
  MasterAt.part h (setPart_out hx hold 0)

/-! ## A member goes on -/

/-- A member of the team goes on, with the calls of its function counted. -/
theorem TeamInv.advance (hi : TeamInv s) (hp : p ∈ s.team) {x : Part} {bg fin : Nat × Nat → Nat} {m : Master}
    (hbarrier : BarrierInv s.barrier s.opened s.arrived (Function.update s.waits p x.wait)) (hahead : Ahead s p x)
    (hbg : bg = Function.update s.began (s.works p) x.began) (hfin : fin = Function.update s.finished (s.works p) x.finished)
    (hmaster : MasterInv { s with parts := Function.update s.parts p x, began := bg, finished := fin, master := m })
    (hnext : Team.next { s with parts := Function.update s.parts p x, began := bg, finished := fin, master := m } = s.next) :
    TeamInv { s with parts := Function.update s.parts p x, began := bg, finished := fin, master := m } := by
  have ha := hi.active_of_mem hp
  obtain ⟨hregion, hlt, hold, -, -⟩ := hi.members p hp
  have hact := hi.active ha
  have hcur := (Team.current_region (hi.regions_ne ha)).1
  -- the count of whoever is not this member's stays
  have hother : ∀ c, c ≠ s.works p → bg c = s.began c ∧ fin c = s.finished c := by
    intro c hc
    rw [hbg, hfin, Function.update_of_ne hc, Function.update_of_ne hc]
    exact ⟨rfl, rfl⟩
  have hregion_ne : ∀ k i, k ≠ s.current → (k, i) ≠ s.works p := by
    intro k i hk he
    exact hk ((congrArg Prod.fst he).trans hregion)
  refine ⟨hi.pool, hi.running, ?_, hi.sub, hi.target, hi.idle, ?_, ?_, ?_, hi.injective, ?_, hmaster, ?_, ?_⟩
  · show BarrierInv s.barrier s.opened s.arrived fun q => (Function.update s.parts p x q).wait
    rw [waits_setPart]
    exact hbarrier
  · intro _
    refine ⟨hact.max, hact.master, hnext.symm ▸ hact.card, hnext.symm ▸ hact.le, ?_, hact.early, ?_⟩
    · rw [hnext]
      exact hact.queue
    · intro i hc
      have hne : (s.current, i) ≠ s.works p := by
        intro he
        have h2 : i = (s.works p).2 := congrArg Prod.snd he
        have hle : s.team.card ≤ i := hc
        omega
      obtain ⟨h1, h2⟩ := hother (s.current, i) hne
      show bg (s.current, i) = 0 ∧ fin (s.current, i) = 0
      rw [h1, h2]
      exact hact.rest i hc
  · intro q hq
    show MemberInv _ q
    by_cases hqp : q = p
    · subst hqp
      refine ⟨hregion, hlt, ?_, ?_, ?_⟩
      · show Ahead _ q (Function.update s.parts q x q)
        rw [Function.update_self]
        exact hahead
      · show bg (s.works q) = (Function.update s.parts q x q).began
        rw [hbg, Function.update_self, Function.update_self]
      · show fin (s.works q) = (Function.update s.parts q x q).finished
        rw [hfin, Function.update_self, Function.update_self]
    · have hm := hi.members q hq
      obtain ⟨hb, hf⟩ := hother (s.works q) fun he => hqp (hi.injective q p hq hp he)
      exact hm.stays rfl rfl (Function.update_of_ne hqp _ _) (Nat.le_refl _) hm.ahead hb hf
  · intro q hq
    show Over (Function.update s.parts p x q)
    have hqp : q ≠ p := by
      rintro rfl
      exact hq hp
    rw [Function.update_of_ne hqp]
    exact hi.others q hq
  · intro j
    show Function.update s.parts p x (j + 1) ≠ .out → _
    by_cases hj : j + 1 = p
    · intro _
      apply hi.workers
      intro ho
      exact hi.out_notMem ho (Nat.succ_ne_zero j) (hj ▸ hp)
    · rw [Function.update_of_ne hj]
      exact hi.workers j
  · intro k i hk
    obtain ⟨h1, h2⟩ := hother (k, i) (hregion_ne k i (by have : s.regions.length ≤ k := hk; omega))
    show bg (k, i) = 0 ∧ fin (k, i) = 0
    rw [h1, h2]
    exact hi.future k i hk
  · intro k r hk hpast i
    have hlt' : k < s.current := hpast.resolve_right (Nat.ne_of_lt ha)
    obtain ⟨h1, h2⟩ := hother (k, i) (hregion_ne k i (Nat.ne_of_lt hlt'))
    show bg (k, i) = _ ∧ fin (k, i) = _
    rw [h1, h2]
    exact hi.past k r hk hpast i

/-- The same, where no call begins or returns. -/
theorem TeamInv.goOn (hi : TeamInv s) (hp : p ∈ s.team) {x : Part}
    (hbarrier : BarrierInv s.barrier s.opened s.arrived (Function.update s.waits p x.wait)) (hx : x ≠ .out) (hold : s.parts p ≠ .out)
    (hahead : Ahead s p x) (hb : x.began = (s.parts p).began) (hf : x.finished = (s.parts p).finished) : TeamInv (s.setPart p x) := by
  have hmem := hi.members p hp
  have hbg : s.began = Function.update s.began (s.works p) x.began := by
    rw [hb, ← hmem.began, Function.update_eq_self]
  have hfin : s.finished = Function.update s.finished (s.works p) x.finished := by
    rw [hf, ← hmem.finished, Function.update_eq_self]
  exact hi.advance (m := s.master) hp hbarrier hahead hbg hfin (hi.master.setPart hx hold) rfl

/-- Who is neither out nor at the end of a region is in the team. -/
theorem TeamInv.mem (hi : TeamInv s) (h : ¬ Over (s.parts p)) : p ∈ s.team := by
  by_contra hn
  exact h (hi.others p hn)

/-- A participant that is not at the barrier stays away from it. -/
theorem TeamInv.away (hi : TeamInv s) {x : Part} (hold : s.waits p = none) (hx : x.wait = none) :
    BarrierInv s.barrier s.opened s.arrived (Function.update s.waits p x.wait) := by
  rw [hx, ← hold, Function.update_eq_self]
  exact hi.barrier

/-- It calls `bomp_barrier_wait`. -/
theorem TeamInv.call (hi : TeamInv s) {l : Nat} (hold : s.waits p = none) :
    BarrierInv s.barrier s.opened s.arrived (Function.update s.waits p (Part.waiting l .sample).wait) := by
  have hat := hi.barrier.thread p
  rw [hold] at hat
  exact hi.barrier.move hat (by rw [hold]; exact Iff.rfl) (by rw [hold]; exact Iff.rfl)

theorem Over.not_poolTls : ¬ Over .poolTls := by
  rintro (h | ⟨w, h, -⟩) <;> cases h

theorem Over.not_fnTls : ¬ Over .fnTls := by
  rintro (h | ⟨w, h, -⟩) <;> cases h

theorem Over.not_inFn {l : Nat} : ¬ Over (.inFn l) := by
  rintro (h | ⟨w, h, -⟩) <;> cases h

theorem Over.not_later {l : Nat} {w : Wait} : ¬ Over (.waiting (l + 1) w) := by
  rintro (h | ⟨w, h, -⟩) <;> cases h

theorem TeamInv.poolTls (hi : TeamInv s) (hp : s.parts p = .poolTls) : TeamInv (s.setPart p .fnTls) := by
  have hmem := hi.mem (p := p) (by rw [hp]; exact Over.not_poolTls)
  have ha := (hi.members p hmem).ahead
  rw [hp] at ha
  exact hi.goOn hmem (hi.away (congrArg Part.wait hp) rfl) Part.noConfusion (by rw [hp]; exact Part.noConfusion) ha (by rw [hp]; rfl)
    (by rw [hp]; rfl)

theorem TeamInv.barrier_call {l : Nat} (hi : TeamInv s) (hp : s.parts p = .inFn (l + 1)) :
    TeamInv (s.setPart p (.waiting (l + 1) .sample)) := by
  have hmem := hi.mem (p := p) (by rw [hp]; exact Over.not_inFn)
  have ha := (hi.members p hmem).ahead
  rw [hp] at ha
  exact hi.goOn hmem (hi.call (congrArg Part.wait hp)) Part.noConfusion (by rw [hp]; exact Part.noConfusion)
    ⟨fun _ => ha, fun _ h => absurd trivial h⟩ (by rw [hp]; rfl) (by rw [hp]; rfl)

theorem TeamInv.resume {l : Nat} (hi : TeamInv s) (hp : s.parts p = .waiting (l + 1) .done) : TeamInv (s.setPart p (.inFn l)) := by
  have hmem := hi.mem (p := p) (by rw [hp]; exact Over.not_later)
  have hw : s.waits p = some .done := congrArg Part.wait hp
  have hat := hi.barrier.thread p
  rw [hw] at hat
  have ha := (hi.members p hmem).ahead
  rw [hp] at ha
  have hbarrier : BarrierInv s.barrier s.opened s.arrived (Function.update s.waits p (Part.inFn l).wait) :=
    hi.barrier.move hat (by rw [hw]; exact Iff.rfl) (by rw [hw]; exact Iff.rfl)
  have hahead : s.opened + l + 1 = s.target := ha.2 hat id
  exact hi.goOn hmem hbarrier Part.noConfusion (by rw [hp]; exact Part.noConfusion) hahead (by rw [hp]; rfl) (by rw [hp]; rfl)

theorem TeamInv.fnTls (hi : TeamInv s) (hp : s.parts p = .fnTls) :
    TeamInv ((s.setPart p (.inFn (s.regions.getD (s.works p).1 ⟨0, 0⟩).barriers)).begin p) := by
  have hmem := hi.mem (p := p) (by rw [hp]; exact Over.not_fnTls)
  have hm := hi.members p hmem
  have hregion : s.regions.getD (s.works p).1 ⟨0, 0⟩ = s.region := by
    rw [hm.region, List.getD_eq_getElem?_getD, (Team.current_region (hi.regions_ne (hi.active_of_mem hmem))).2]
    rfl
  have ha := hm.ahead
  have hb := hm.began
  have hf := hm.finished
  rw [hp] at ha hb hf
  rw [hregion]
  refine hi.advance (x := .inFn s.region.barriers) (m := s.master) hmem (hi.away (congrArg Part.wait hp) rfl) ha ?_ ?_
    (hi.master.setPart Part.noConfusion (by rw [hp]; exact Part.noConfusion)) rfl
  · show Function.update s.began (s.works p) (s.began (s.works p) + 1) = _
    rw [hb]
    rfl
  · show s.finished = Function.update s.finished (s.works p) (Part.inFn s.region.barriers).finished
    rw [show (Part.inFn s.region.barriers).finished = s.finished (s.works p) from hf.symm, Function.update_eq_self]

theorem TeamInv.finish (hi : TeamInv s) (hp : s.parts p = .inFn 0) : TeamInv ((s.setPart p (.waiting 0 .sample)).finish p) := by
  have hmem := hi.mem (p := p) (by rw [hp]; exact Over.not_inFn)
  have hm := hi.members p hmem
  have ha := hm.ahead
  have hb := hm.began
  have hf := hm.finished
  rw [hp] at ha hb hf
  refine hi.advance (x := .waiting 0 .sample) (m := s.master) hmem (hi.call (congrArg Part.wait hp))
    ⟨fun _ => ha, fun _ h => absurd trivial h⟩ ?_ ?_ (hi.master.setPart Part.noConfusion (by rw [hp]; exact Part.noConfusion)) rfl
  · show s.began = Function.update s.began (s.works p) (Part.waiting 0 .sample).began
    rw [show (Part.waiting 0 .sample).began = s.began (s.works p) from hb.symm, Function.update_eq_self]
  · show Function.update s.finished (s.works p) (s.finished (s.works p) + 1) = _
    rw [hf]
    rfl

/-- The master has queued all the tasks. -/
theorem TeamInv.enter {i : Nat} (hi : TeamInv s) (hm : s.master = .starting i) (hlast : s.region.size ≤ i) :
    TeamInv { (s.setPart 0 (.inFn s.region.barriers)).begin 0 with master := .inside } := by
  obtain ⟨hout, ha, harray, hne⟩ := hi.at_starting hm
  have hact := hi.active ha
  have hnext : s.next = i := by
    unfold Team.next
    rw [hm]
  have hlt := hact.le
  have hmem := hi.members 0 hact.master
  have hah := hmem.ahead
  have hb := hmem.began
  have hf := hmem.finished
  rw [hout] at hah hb hf
  refine hi.advance (x := .inFn s.region.barriers) (m := .inside) hact.master (hi.away (congrArg Part.wait hout) rfl)
    hah.2 ?_ ?_ ⟨?_, harray, hne⟩ ?_
  · show Function.update s.began (s.works 0) (s.began (s.works 0) + 1) = _
    rw [hb]
    rfl
  · show s.finished = Function.update s.finished (s.works 0) (Part.inFn s.region.barriers).finished
    rw [show (Part.inFn s.region.barriers).finished = s.finished (s.works 0) from hf.symm, Function.update_eq_self]
  · show Function.update s.parts 0 (.inFn s.region.barriers) 0 ≠ .out
    rw [Function.update_self]
    exact Part.noConfusion
  · show s.region.size = s.next
    omega

/-! ## An access to the barrier -/

/-- A round that is opened while the master is in its region leaves it there. -/
theorem MasterInv.access {l : Nat} {v w : Wait} {e : Event} {b : Barrier} (h : MasterInv s) (hp : s.parts p = .waiting l v)
    (hover : s.opened = s.target → e.opened s.opened = s.target)
    (hstart : ∀ i, s.master = .starting i → s.opened < s.target → e.opened s.opened < s.target) : MasterInv (s.access p l w e b) := by
  have hpart := setPart_out (s := s) (x := .waiting l w) Part.noConfusion (show s.parts p ≠ .out by rw [hp]; exact Part.noConfusion) 0
  have hold : MasterAt (Function.update s.parts p (.waiting l w) 0) s.opened s.target s.array s.regions s.master := MasterAt.part h hpart
  show MasterAt (Function.update s.parts p (.waiting l w) 0) (e.opened s.opened) s.target s.array s.regions s.master
  cases hm : s.master with
  | outside =>
    rw [hm] at hold
    exact ⟨hold.1, hover hold.2.1, hold.2.2⟩
  | starting i =>
    rw [hm] at hold
    exact ⟨hold.1, hstart i hm hold.2.1, hold.2.2⟩
  | inside =>
    rw [hm] at hold
    exact hold
  | dropping =>
    rw [hm] at hold
    exact ⟨hold.1, hover hold.2.1, hold.2.2⟩
  | gone =>
    rw [hm] at hold
    exact hold

/-- A worker whose place is in a wait has a task. -/
theorem TeamInv.workers_waiting {l : Nat} {v : Wait} {x : Part} (hi : TeamInv s) (hp : s.parts p = .waiting l v) (j : Nat)
    (h : Function.update s.parts p x (j + 1) ≠ .out) : ∃ task, s.sys.workers j = .running task := by
  apply hi.workers
  by_cases hj : j + 1 = p
  · rw [hj, hp]
    exact Part.noConfusion
  · rwa [Function.update_of_ne hj] at h

theorem Team.access_within (s : Team) (p l : Nat) (w : Wait) {e : Event} (b : Barrier) (he : e ≠ .opens) :
    s.access p l w e b =
      { s with barrier := b, parts := Function.update s.parts p (.waiting l w), arrived := e.arrived s.arrived p } := by
  cases e with
  | opens => exact absurd rfl he
  | quiet | arrives => rfl

/-- Where a participant waits, no call of the function begins or returns. -/
theorem waiting_counts {l : Nat} {v w : Wait} (hp : s.parts p = .waiting l v) (q : Nat) :
    Part.began (Function.update s.parts p (.waiting l w) q) = (s.parts q).began ∧
      Part.finished (Function.update s.parts p (.waiting l w) q) = (s.parts q).finished := by
  by_cases hqp : q = p
  · subst hqp
    rw [Function.update_self, hp]
    cases l with
    | zero => exact ⟨rfl, rfl⟩
    | succ l => exact ⟨rfl, rfl⟩
  · rw [Function.update_of_ne hqp]
    exact ⟨rfl, rfl⟩

/-- An access that opens no round: only the barrier, the place of one participant and its arrival
    change. -/
theorem TeamInv.access_within {l : Nat} {v w : Wait} {e : Event} {b : Barrier} (hi : TeamInv s) (hp : s.parts p = .waiting l v)
    (he : e ≠ .opens) (hmax : b.max = s.barrier.max)
    (hbarrier : BarrierInv b s.opened (e.arrived s.arrived p) (Function.update s.waits p (some w)))
    (hsub : e.arrived s.arrived p ⊆ s.team) (hsame : ∀ q, q ≠ p → (q ∈ e.arrived s.arrived p ↔ q ∈ s.arrived))
    (hself : p ∈ s.team → Ahead (s.access p l w e b) p (.waiting l w)) (hover : p ∉ s.team → Over (.waiting l w)) :
    TeamInv (s.access p l w e b) := by
  have hmaster := hi.master.access (w := w) (e := e) (b := b) hp (fun h => by cases e <;> first | exact absurd rfl he | exact h)
    fun _ _ h => by cases e <;> first | exact absurd rfl he | exact h
  rw [s.access_within p l w b he] at hself hmaster ⊢
  constructor
  case pool => exact hi.pool
  case running => exact hi.running
  case barrier =>
    show BarrierInv b s.opened (e.arrived s.arrived p) fun q => (Function.update s.parts p (.waiting l w) q).wait
    rw [waits_setPart]
    exact hbarrier
  case sub => exact hsub
  case target => exact hi.target
  case idle => exact hi.idle
  case active =>
    intro ha
    have hact := hi.active ha
    exact ⟨(congrArg UInt32.toNat hmax).trans hact.max, hact.master, hact.card, hact.le, hact.queue, hact.early, hact.rest⟩
  case members =>
    intro q hq
    have hm := hi.members q hq
    by_cases hqp : q = p
    · subst hqp
      obtain ⟨hbegan, hfinished⟩ := waiting_counts (w := w) hp q
      refine ⟨hm.region, hm.lt, ?_, hm.began.trans hbegan.symm, hm.finished.trans hfinished.symm⟩
      show Ahead _ q (Function.update s.parts q (.waiting l w) q)
      rw [Function.update_self]
      exact hself hq
    · exact hm.stays rfl rfl (Function.update_of_ne hqp _ _) (Nat.le_refl _) (hm.ahead.congr rfl rfl rfl (hsame q hqp)) rfl rfl
  case others =>
    exact fun q hq => forall_update (P := fun q x => q ∉ s.team → Over x) hover (fun u _ => hi.others u) q hq
  case injective => exact hi.injective
  case workers => exact hi.workers_waiting hp
  case master => exact hmaster
  case future => exact hi.future
  case past => exact hi.past

theorem TeamInv.access_quiet {l : Nat} {v w : Wait} {b : Barrier} (hi : TeamInv s) (hp : s.parts p = .waiting l v)
    (h : WaitStep s.barrier v .quiet b w) (hlate : NotMistaken s.barrier s.arrived p (some v)) : TeamInv (s.access p l w .quiet b) := by
  obtain ⟨hmax, -, hcoming, -, -⟩ := h.quiet (t := p)
  have hw : s.waits p = some v := congrArg Part.wait hp
  refine hi.access_within hp Event.noConfusion hmax (h.inv hi.barrier hw Event.noConfusion hlate Event.noConfusion) hi.sub
    (fun _ _ => Iff.rfl) ?_ ?_
  · intro hmem
    have ha := (hi.members p hmem).ahead
    rw [hp] at ha
    exact ⟨fun hc => ha.1 (hc.imp_right hcoming.mp), fun hn hc => ha.2 hn fun h => hc (hcoming.mpr h)⟩
  · intro hn
    obtain ho | ⟨w', hw', hc⟩ := hi.others p hn
    · rw [hp] at ho
      cases ho
    · rw [hp] at hw'
      cases hw'
      exact .inr ⟨w, rfl, fun h => hc (hcoming.mp h)⟩

theorem TeamInv.access_arrives {l : Nat} {v w : Wait} {b : Barrier} (hi : TeamInv s) (hp : s.parts p = .waiting l v)
    (h : WaitStep s.barrier v .arrives b w) (hlate : NotMistaken s.barrier s.arrived p (some v)) : TeamInv (s.access p l w .arrives b) := by
  obtain ⟨hmax, -, hcoming⟩ := h.arrives
  have hw : s.waits p = some v := congrArg Part.wait hp
  have hmem : p ∈ s.team := hi.coming_mem (by rw [hw]; exact hcoming)
  have hnot : p ∉ s.arrived := (show Coming (s.waits p) by rw [hw]; exact hcoming).not_arrived (hi.barrier.thread p)
  have hact := hi.active (hi.active_of_mem hmem)
  have hroom : s.arrived.card < s.barrier.max.toNat := by
    have hlt : s.arrived.card < s.team.card := Finset.card_lt_card ⟨hi.sub, fun h => hnot (h hmem)⟩
    have hcard := hact.card
    have hle := hact.le
    rw [hact.max]
    omega
  refine hi.access_within hp Event.noConfusion hmax (h.inv hi.barrier hw (fun _ => hroom) hlate Event.noConfusion)
    (Finset.insert_subset hmem hi.sub) (fun q hq => Finset.mem_insert.trans (or_iff_right hq)) ?_ fun hn => absurd hmem hn
  intro _
  have ha := (hi.members p hmem).ahead
  rw [hp] at ha
  exact ⟨fun _ => ha.1 (.inr hcoming), fun hn => absurd (Finset.mem_insert_self p s.arrived) hn⟩

/-- The counts of a region whose members have all gone through their last barrier. -/
theorem TeamInv.all_finished (hi : TeamInv s) (ha : s.opened < s.target) (hcard : s.team.card = s.region.size)
    (hall : ∀ q, q ∈ s.team → (s.parts q).began = 1 ∧ (s.parts q).finished = 1) (i : Nat) :
    s.began (s.current, i) = (if i < s.region.size then 1 else 0) ∧
      s.finished (s.current, i) = if i < s.region.size then 1 else 0 := by
  split
  · rename_i hlt
    obtain ⟨q, hq, hwork⟩ := hi.member (i := i) (by omega)
    obtain ⟨hb, hf⟩ := hall q hq
    have hmem := hi.members q hq
    rw [← hwork]
    exact ⟨hmem.began.trans hb, hmem.finished.trans hf⟩
  · exact (hi.active ha).rest i (by omega)

/-! ## The access that opens a round -/

section
variable {l : Nat} {v : Wait} {b : Barrier}

/-- Every member is behind the round that opens, and goes on from where it was. -/
theorem TeamInv.behind (hi : TeamInv s) (hp : s.parts p = .waiting l v) (harrived : s.arrived = s.team) {q : Nat} (hq : q ∈ s.team) :
    ∃ k w, Function.update s.parts p (.waiting l .done) q = .waiting k w ∧ ¬ Coming (some w) ∧ s.opened + k + 1 = s.target := by
  obtain ⟨k, w, hpart, hc, hleft⟩ := hi.arrived_waiting (p := q) (harrived ▸ hq)
  by_cases hqp : q = p
  · subst hqp
    cases hp.symm.trans hpart
    exact ⟨l, .done, Function.update_self _ _ _, id, hleft⟩
  · rw [Function.update_of_ne hqp]
    exact ⟨k, w, hpart, hc, hleft⟩

/-- The master is not still starting the region. -/
theorem TeamInv.not_starting (hi : TeamInv s) (ha : s.opened < s.target) (harrived : s.arrived = s.team) (i : Nat) : s.master ≠ .starting i := by
  intro hm
  obtain ⟨k, w, hpart, -⟩ := hi.arrived_waiting (p := 0) (harrived ▸ (hi.active ha).master)
  rw [(hi.at_starting hm).1] at hpart
  cases hpart

theorem TeamInv.opens_barrier (hi : TeamInv s) (hw : s.waits p = some v) (harrived : s.arrived = s.team)
    (h : WaitStep s.barrier v .opens b .done) : BarrierInv b (s.opened + 1) ∅ (Function.update s.waits p (some .done)) := by
  obtain ⟨-, -, c, rfl, -⟩ := h.opens
  refine h.inv hi.barrier hw Event.noConfusion trivial ?_
  intro _ u hu
  have hin := hi.coming_mem hu.coming
  rw [← harrived] at hin
  exact hu.coming.not_arrived (hi.barrier.thread u) hin

theorem TeamInv.opens_others (hi : TeamInv s) (hmem : p ∈ s.team) {q : Nat} (hq : q ∉ s.team) :
    Over (Function.update s.parts p (.waiting l .done) q) := by
  have hqp : q ≠ p := by
    rintro rfl
    exact hq hmem
  rw [Function.update_of_ne hqp]
  exact hi.others q hq

/-- The calls of a region are all over with its last round. -/
theorem TeamInv.opens_past (hi : TeamInv s) (hp : s.parts p = .waiting l v) (ha : s.opened < s.target) (harrived : s.arrived = s.team)
    (hcard : s.team.card = s.region.size) (hlast : s.opened + 1 = s.target) {k : Nat} {r : Region} (hk : s.regions[k]? = some r) (i : Nat) :
    s.began (k, i) = (if i < r.size then 1 else 0) ∧ s.finished (k, i) = if i < r.size then 1 else 0 := by
  obtain ⟨-, hcur⟩ := Team.current_region (hi.regions_ne ha)
  have hle : k ≤ s.current := by
    have hklt : k < s.regions.length := (List.getElem?_eq_some_iff.mp hk).1
    unfold Team.current
    omega
  obtain hk' | rfl := Nat.lt_or_eq_of_le hle
  · exact hi.past k r hk (.inl hk') i
  · cases hcur.symm.trans hk
    apply hi.all_finished ha hcard
    intro q hq
    obtain ⟨k, w, hpart, -, hleft⟩ := hi.behind hp harrived hq
    obtain ⟨hb, hf⟩ := waiting_counts (w := .done) hp q
    have h0 : k = 0 := by omega
    rw [← hb, ← hf, hpart, h0]
    exact ⟨rfl, rfl⟩

/-- The last round of a region opens. -/
theorem TeamInv.opens_last (hi : TeamInv s) (hp : s.parts p = .waiting l v) (ha : s.opened < s.target)
    (hfull : s.arrived = s.team ∧ s.team.card = s.region.size ∧ s.next = s.region.size) (hmem : p ∈ s.team)
    (h : WaitStep s.barrier v .opens b .done) (hlast : s.opened + 1 = s.target) : TeamInv (s.access p l .done .opens b) := by
  obtain ⟨harrived, hcard, hnext⟩ := hfull
  have hteam : (s.access p l .done .opens b).team = ∅ := if_pos hlast
  have hnobody : ∀ q, q ∉ (s.access p l .done .opens b).team := by
    rw [hteam]
    exact Finset.notMem_empty
  constructor
  case pool => exact hi.pool
  case running => exact hi.running
  case barrier =>
    show BarrierInv b (s.opened + 1) ∅ fun q => (Function.update s.parts p (.waiting l .done) q).wait
    rw [waits_setPart]
    exact hi.opens_barrier (congrArg Part.wait hp) harrived h
  case sub => exact Finset.empty_subset _
  case target => exact Nat.le_of_eq hlast
  case idle =>
    intro _
    refine ⟨hteam, ?_⟩
    show s.sys.pool.queued = []
    rw [(hi.active ha).queue, hcard, hnext, Nat.sub_self]
    rfl
  case active => exact fun h => absurd hlast (Nat.ne_of_lt h)
  case members => exact fun q hq => absurd hq (hnobody q)
  case others =>
    intro q _
    by_cases hq : q ∈ s.team
    · obtain ⟨k, w, hpart, hc, hleft⟩ := hi.behind hp harrived hq
      have h0 : k = 0 := by omega
      show Over (Function.update s.parts p (.waiting l .done) q)
      rw [hpart, h0]
      exact .inr ⟨w, rfl, hc⟩
    · exact hi.opens_others hmem hq
  case injective => exact fun q _ hq => absurd hq (hnobody q)
  case workers => exact fun _ => hi.workers_waiting hp _
  case master =>
    exact hi.master.access hp (fun he => absurd he (Nat.ne_of_lt ha)) fun i hm => absurd hm (hi.not_starting ha harrived i)
  case future => exact hi.future
  case past => exact fun k r hk _ => hi.opens_past hp ha harrived hcard hlast hk

/-- A round opens with more of the region ahead. -/
theorem TeamInv.opens_more (hi : TeamInv s) (hp : s.parts p = .waiting l v) (ha : s.opened < s.target)
    (hfull : s.arrived = s.team ∧ s.team.card = s.region.size ∧ s.next = s.region.size) (hmem : p ∈ s.team)
    (h : WaitStep s.barrier v .opens b .done) (hmore : s.opened + 1 ≠ s.target) : TeamInv (s.access p l .done .opens b) := by
  obtain ⟨harrived, hcard, -⟩ := hfull
  have hact := hi.active ha
  have hmaster : MasterInv (s.access p l .done .opens b) :=
    hi.master.access hp (fun he => absurd he (Nat.ne_of_lt ha)) fun i hm => absurd hm (hi.not_starting ha harrived i)
  have heq : s.access p l .done .opens b =
      { s with barrier := b, parts := Function.update s.parts p (.waiting l .done), opened := s.opened + 1, arrived := ∅ } := by
    unfold Team.access Event.team
    rw [if_neg hmore]
    rfl
  rw [heq] at hmaster ⊢
  constructor
  case pool => exact hi.pool
  case running => exact hi.running
  case barrier =>
    show BarrierInv b (s.opened + 1) ∅ fun q => (Function.update s.parts p (.waiting l .done) q).wait
    rw [waits_setPart]
    exact hi.opens_barrier (congrArg Part.wait hp) harrived h
  case sub => exact Finset.empty_subset _
  case target => exact ha
  case idle => exact fun he => absurd he hmore
  case active =>
    intro _
    exact ⟨(congrArg UInt32.toNat h.opens.1).trans hact.max, hact.master, hact.card, hact.le, hact.queue,
      fun hlt => absurd hcard (Nat.ne_of_lt hlt), hact.rest⟩
  case members =>
    intro q hq
    obtain ⟨k, w, hpart, hc, hleft⟩ := hi.behind hp harrived hq
    obtain ⟨hb, hf⟩ := waiting_counts (w := .done) hp q
    have hm := hi.members q hq
    refine ⟨hm.region, hm.lt, ?_, hm.began.trans hb.symm, hm.finished.trans hf.symm⟩
    show Ahead _ q (Function.update s.parts p (.waiting l .done) q)
    rw [hpart]
    refine ⟨fun h => absurd h (not_or_intro (Finset.notMem_empty q) hc), fun _ _ => ?_⟩
    show s.opened + 1 + k = s.target
    omega
  case others => exact fun q hq => hi.opens_others hmem hq
  case injective => exact hi.injective
  case workers => exact fun _ => hi.workers_waiting hp _
  case master => exact hmaster
  case future => exact hi.future
  case past => exact fun k r hk hpast => hi.past k r hk (.inl (hpast.resolve_right hmore))

theorem TeamInv.access_opens {w : Wait} (hi : TeamInv s) (hp : s.parts p = .waiting l v) (h : WaitStep s.barrier v .opens b w) :
    TeamInv (s.access p l w .opens b) := by
  obtain ⟨-, rfl, c, rfl, -⟩ := h.opens
  have hat := hi.barrier.thread p
  rw [show s.waits p = some (.flip c) from congrArg Part.wait hp] at hat
  obtain ⟨harrived, hround, -⟩ := hat
  have hmem := hi.sub harrived
  have ha := hi.active_of_mem hmem
  have hfull := hi.full ha hround
  by_cases hlast : s.opened + 1 = s.target
  · exact hi.opens_last hp ha hfull hmem h hlast
  · exact hi.opens_more hp ha hfull hmem h hlast

end

end

end Popcorn.Bomp
