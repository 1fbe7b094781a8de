/-
  Popcorn.Runtime.Agreement — a register of an activation and the place it is saved at.

  The destination's activations have register sets of their own, and a value in a
  callee-saved register is written twice: to the register set of its activation and to the
  place the finished stack keeps it at (`savedPlace`). A frame's registers are loaded from
  these places when it is popped, so the two hold the same bytes from then on
  (`Coherent`), as long as no stale bit hides the place.

  Proved:
  - `Coherent.write`: a put keeps both in step.
  - `StepRun.coherent`: so does a round of the rewrite, for the next frame too.
  - `rewriteOutermost_coherent`: they agree when the first frame is entered.
-/

import Popcorn.Runtime.FrameRule
import Popcorn.Runtime.Preserve

namespace Popcorn.Runtime

open Popcorn.Lib Popcorn.Metadata

/-- A register whose value in frame `j` the runtime keeps in two places, when it has come to frame
    `m`: no stale bit hides its place, and no frame from `j` to `m` shares it. -/
structure Tracked (x : RewriteArgs) (ds : Nat → CallSite) (n m j : Nat) (r : UInt16) : Prop where
  pos : 0 < j
  le : j ≤ m
  inner : j + 1 < n
  ordinary : Ordinary x r
  clean : NoStaleBit x ds n j r
  listed : j < m → Lists x.handleDest (ds j) r

/-- The register of activation `j` has the bytes at its place. -/
def Coherent (x : RewriteArgs) (ds : Nat → CallSite) (n j : Nat) (r : UInt16) (st : Dst) : Prop :=
  st.read (.reg j (regOff x.handleDest.arch r)) 8 = st.read (savedPlace x ds n r j) 8

section
variable {mem : Mem} {x : RewriteArgs} {n : Nat} {sf : Nat → VFrame} {ds : Nat → CallSite} {gs : Nat → List (Group × Group)}
  {st0 st st' : Dst} {m t j k : Nat} {r : UInt16}

theorem savedPlace_final (x : RewriteArgs) (ds : Nat → CallSite) (n : Nat) (r : UInt16) (k : Nat) : (savedPlace x ds n r k).Final := by
  induction k with
  | zero => rfl
  | succ k ih =>
    unfold savedPlace
    split
    · trivial
    · exact ih

/-! ## Puts -/

/-- A tracked register's place is apart from the targets of other values. -/
theorem Tracked.place_disj (hl : StackLayout x ds n) (ht : Tracked x ds n m j r) {tg : Target} (h0 : 0 < k) (hkm : k ≤ m)
    (hk : k + 1 < n) (hfine : Fine x ds n k tg) (hne : ¬ (k = j ∧ tg = .reg r)) :
    (savedPlace x ds n r j).Disj 8 (place x ds n k tg) tg.len := by
  cases tg with
  | mem a len => exact place_disj_mem hl ht.pos ht.inner h0 hk ht.ordinary hfine
  | reg r' =>
    by_cases hr : r = r'
    · subst hr
      rcases Nat.lt_trichotomy j k with hlt | rfl | hlt
      · exact savedPlace_disj_same hl ht.pos hk hlt ⟨ht.ordinary, ht.listed (by omega)⟩
      · exact absurd ⟨rfl, rfl⟩ hne
      · exact (savedPlace_disj_same hl h0 ht.inner hlt hfine).symm
    · exact savedPlace_disj_ne hl ht.pos ht.inner h0 hk ht.ordinary hfine.1 hr

/-- A write outside the register and its place. -/
theorem Coherent.other {l : Loc} {bs : List UInt8} (h : Coherent x ds n j r st)
    (h1 : (Loc.reg j (regOff x.handleDest.arch r)).Disj 8 l bs.length) (h2 : (savedPlace x ds n r j).Disj 8 l bs.length) :
    Coherent x ds n j r (writeLoc st l bs) :=
  (read_writeLoc_disj st h1).trans (h.trans (read_writeLoc_disj st h2).symm)

theorem Loc.Final.disj_act {l : Loc} (hf : l.Final) (h0 : 0 < j) (off len len' : Nat) : (Loc.reg j off).Disj len l len' := by
  cases l with
  | mem a => trivial
  | reg i o =>
    have hi : i = 0 := hf
    exact .inl (by omega)

/-- A put to the register itself writes both. -/
theorem Coherent.own (ht : Tracked x ds n m j r) {bs : List UInt8} (hbs : bs.length ≤ 8) (h : Coherent x ds n j r st) :
    Coherent x ds n j r (writeBoth st (.reg j (regOff x.handleDest.arch r)) (some (savedPlace x ds n r j)) bs) := by
  have hdisj := fun len len' => (savedPlace_final x ds n r j).disj_act ht.pos (regOff x.handleDest.arch r) len len'
  unfold Coherent writeBoth
  dsimp only
  rw [read_writeLoc_disj _ (hdisj 8 bs.length), read_writeLoc_patch _ _ hbs, read_writeLoc_patch _ _ hbs,
    read_writeLoc_disj st (hdisj bs.length 8).symm]
  exact congrArg (fun b => bs ++ List.drop bs.length b) h

/-- A put keeps a register and its place in step. -/
theorem Coherent.write (hl : StackLayout x ds n) (ht : Tracked x ds n m j r) {tg : Target} {dest : Loc} {callee : Option Loc}
    {bs : List UInt8} (h0 : 0 < k) (hkm : k ≤ m) (hk : k + 1 < n) (hfine : Fine x ds n k tg) (hlocs : Locs x ds n k tg dest callee)
    (hbs : bs.length ≤ tg.len) (h : Coherent x ds n j r st) : Coherent x ds n j r (writeBoth st dest callee bs) := by
  have hplace := ht.place_disj hl h0 hkm hk hfine
  have hreg := fun r' (ho : Ordinary x r') (hne : ¬ (k = j ∧ r' = r)) =>
    show (Loc.reg j (regOff x.handleDest.arch r)).Disj 8 (.reg k (regOff x.handleDest.arch r')) 8 by
      by_cases hkj : k = j
      · exact .inr (reg_disj (calleeSaved_cases ht.ordinary.calleeSaved).1 (calleeSaved_cases ho.calleeSaved).1
          fun e => hne ⟨hkj, e.symm⟩)
      · exact .inl (Ne.symm hkj)
  have hact := fun off => ((savedPlace_final x ds n r j).disj_act h0 off bs.length 8).symm
  cases hlocs with
  | mem a len =>
    have hne : ¬ (k = j ∧ Target.mem a len = .reg r) := fun e => nomatch e.2
    exact h.other trivial ((hplace hne).mono hbs)
  | found r' ho hns =>
    by_cases hown : k = j ∧ r' = r
    · obtain ⟨rfl, rfl⟩ := hown
      exact h.own ht hbs
    · have hne : ¬ (k = j ∧ Target.reg r' = .reg r) := fun e => hown ⟨e.1, Target.reg.inj e.2⟩
      apply Coherent.other (h.other ((hreg r' ho hown).mono hbs) (hact _))
      · exact (savedPlace_final x ds n r' k).disj_act ht.pos _ _ _
      · exact (hplace hne).mono hbs
  | hidden r' ho hstale =>
    have hown : ¬ (k = j ∧ r' = r) := by
      rintro ⟨rfl, rfl⟩
      exact hstale ht.clean
    exact h.other ((hreg r' ho hown).mono hbs) (hact _)

/-! ## Frames -/

section Frame
variable (hl : StackLayout x ds n) (hm : Matched x n sf ds gs) (ht : Tracked x ds n m j r)

include hl hm ht in
/-- The rewrite of a frame keeps a register and its place in step. -/
theorem Coherent.frameRule {src : Ctx} (hsrc : SrcFrame x sf m src) (h0 : 0 < m) (hmn : m + 1 < n) :
    FrameRule mem x n sf ds gs st0 m src fun _ st _ st' => Coherent x ds n j r st → Coherent x ds n j r st' where
  refl _ _ h := h
  trans h h' hc := h' (h hc)
  setFixups _ st fs h := (setFixups_read st fs _ _).trans (h.trans (setFixups_read st fs _ _).symm)
  resolve := by
    intro t pre fs f d st st' hk _ h hco
    obtain ⟨i, v, hdone, hc, hp, -⟩ := hk.queue f (List.mem_append_right pre List.mem_cons_self)
    have hf0 : 0 < f.act := hdone.1
    have hle : f.act ≤ m := by
      unfold Done at hdone
      omega
    have hfn : f.act + 1 < n := by omega
    have hfine := hm.cell_fine hl.bodies hf0 hfn hc
    have hsize := hm.pointer_size hl hf0 hfn hc hp.1 hp.2.1
    obtain ⟨-, rfl⟩ | ⟨tg, dest, callee, htg, hlen, hlocs, rfl⟩ := putValData_locs hl hk.frames hf0 hle hfn hsize.1 hfine.1 hfine.2 h
    · exact hco
    · exact hco.write hl ht hf0 hle hfn (hfine.2 tg htg) hlocs hlen
  value := by
    intro t i v w q st st' hc hk h hco
    have hfine := hm.cell_fine hl.bodies h0 hmn hc
    obtain ⟨-, rfl⟩ | ⟨tg, bs, dest, callee, htg, -, hlen, hlocs, rfl⟩ :=
      putVal_locs hl hk.frames h0 (Nat.le_refl m) hmn hsrc.act hk.frames.act hfine.1 hfine.2 h
    · exact hco
    · exact hco.write hl ht h0 (Nat.le_refl m) hmn (hfine.2 tg htg) hlocs hlen
  queued _ _ h := h
  arch := by
    intro t i v q st st' hi hv hk h hco
    obtain ⟨haddr, hfine⟩ := (hl.frames m h0 hmn).arch i hi v hv
    obtain ⟨tg, bs, dest, callee, htg, hlen, hlocs, rfl⟩ := putValArch_locs hl hk.frames h0 (Nat.le_refl m) hmn hk.frames.act haddr hfine h
    exact hco.write hl ht h0 (Nat.le_refl m) hmn (hfine tg htg) hlocs hlen

include hl ht in
theorem Tracked.spot : ∃ i ≤ j, Spot x ds n i (savedPlace x ds n r j) 8 := by
  have hinner := ht.inner
  obtain ⟨i, hi, hat, -⟩ := savedPlace_cases x ds n r ht.pos
  exact ⟨i, Nat.le_of_lt hi, hat.spot hl.bodies (by omega) ht.ordinary⟩

include hl ht in
/-- So does a write to the slots of a frame. -/
theorem Coherent.slot (hk : k + 1 < n) {a : Nat} {bs : List UInt8} (h1 : destCfa x ds n k ≤ a + 16)
    (h2 : a + bs.length ≤ destCfa x ds n k) (h : Coherent x ds n j r st) : Coherent x ds n j r (writeLoc st (.mem a) bs) := by
  have hinner := ht.inner
  obtain ⟨i, hi, hspot⟩ := ht.spot hl
  exact h.other trivial (slot_disj hl.fits (by omega) (by omega) h1 h2 hspot).symm

/-! ## The next frame -/

/-- What is tracked of the frames before. -/
theorem Tracked.prev (h : Tracked x ds n (m + 1) j r) (hle : j ≤ m) : Tracked x ds n m j r where
  pos := h.pos
  le := hle
  inner := h.inner
  ordinary := h.ordinary
  clean := h.clean
  listed hlt := h.listed (by omega)

/-- A register that a frame does not save is its caller's. -/
theorem Tracked.unlisted (h : Tracked x ds n (m + 1) (m + 1) r) (h0 : 0 < m) (hno : ∀ l ∈ destRecs x ds m, l.reg ≠ r) :
    Tracked x ds n m m r where
  pos := h0
  le := Nat.le_refl m
  inner := by
    have := h.inner
    omega
  ordinary := h.ordinary
  clean := by
    have hnot : ¬ Lists x.handleDest (destSite ds m) r := by
      intro hlists
      obtain ⟨l, hl, hr⟩ := hlists
      exact hno l hl hr
    refine (NoStaleBit.succ_iff hnot ?_).mp h.clean
    rw [Bool.eq_false_iff]
    intro hset
    exact hnot (h.clean m (Nat.lt_succ_self m) (fun i _ _ => by omega) hset)
  listed hlt := absurd hlt (Nat.lt_irrefl m)

include hl in
/-- The registers of a popped frame are loaded from their places. -/
theorem Tracked.popped (hd : DestFrames x n ds m st.ctx) (hp : CanPop st.ctx) (h0 : 0 < m) (hmn : m + 1 < n)
    (hall : ∀ r, Tracked x ds n m m r → Coherent x ds n m r st) (ht : Tracked x ds n (m + 1) (m + 1) r) :
    Coherent x ds n (m + 1) r ⟨popped st.mem st.ctx true, st.mem⟩ := by
  have harch : st.ctx.handle.arch = x.handleDest.arch := congrArg Handle.arch hd.handle
  have hops : st.ctx.regops = getRegops x.handleDest.arch := congrArg (fun h : Handle => getRegops h.arch) hd.handle
  have hreg := (calleeSaved_cases ht.ordinary.calleeSaved).1
  have hrecs : unwindRecords st.ctx.handle st.ctx.cur.site = destRecs x ds m := by
    rw [hd.handle, hd.cur_site (by omega)]
    rfl
  have hcur : st.ctx.cur.regs = (st.ctx.acts m).regs := by
    unfold Ctx.cur
    rw [hd.act]
  have hmark : ∀ l ∈ destRecs x ds m, isCalleeSaved x.handleDest.arch l.reg = true := by
    intro l hrec
    have := hp.markable
    rw [hrecs, harch] at this
    exact (this l hrec).1
  have hfbp : st.ctx.regops.fbp st.ctx.cur.regs = destFbp x ds n m := by
    rw [hops, hcur]
    exact hd.fbp m h0 (Nat.le_refl m)
  have hloaded : rget ((Popcorn.Runtime.popped st.mem st.ctx true).acts (m + 1)).regs (regOff x.handleDest.arch r) =
      leVal (st.read (savedPlace x ds n r (m + 1)) 8) := by
    have hload := popped_reg st.mem st.ctx (by rw [hops]; exact hreg) (by rw [harch]; exact ht.ordinary.ne_spReg)
      (by rw [harch]; exact ht.ordinary.notFbp)
    rw [hd.act] at hload
    rw [hload, hrecs, hfbp, harch, hcur]
    apply rget_reload hmark ht.ordinary.calleeSaved
    · intro l hrec hr
      subst hr
      rw [savedPlace_listed (hl.frames m h0 hmn) hrec]
      rfl
    · intro hno
      rw [savedPlace_unlisted hno]
      exact congrArg leVal (hall r (ht.unlisted h0 hno))
  have hbytes : load ((Popcorn.Runtime.popped st.mem st.ctx true).acts (m + 1)).regs (regOff x.handleDest.arch r) 8 =
      st.read (savedPlace x ds n r (m + 1)) 8 := by
    apply leVal_inj
    · rw [load_length, Dst.read_length]
    · exact hloaded
  exact hbytes.trans (read_popped st.mem _ 8 (savedPlace_final x ds n r (m + 1))).symm

include hl hm in
/-- A round of the rewrite. -/
theorem StepRun.coherent (hs : SourceStack mem x n sf ds) {src : Ctx} (hsrc : SrcFrame x sf m src) (h0 : 0 < m) (hmn : m + 1 < n)
    {found : Bool} {st1 st2 : Dst} (hrun : StepRun mem x n sf ds gs m src found st st1 st2 st')
    (hall : ∀ j r, Tracked x ds n m j r → Coherent x ds n j r st) :
    ∀ j r, Tracked x ds n (m + 1) j r → Coherent x ds n j r st' := by
  have hroom := destCfa_room hl.fits h0 (by omega) (hl.frames m h0 hmn)
  have hall2 : ∀ j r, Tracked x ds n m j r → Coherent x ds n j r st2 := by
    intro j r ht
    have h1 : Coherent x ds n j r st1 := by
      rw [hrun.slot]
      exact (hall j r ht).slot hl ht hmn (by omega) (by rw [leBytes_length]; omega)
    obtain ⟨b, sta, stb, hframe⟩ := rewriteFrame_run hl hm hs hsrc h0 hmn hrun.entered hrun.settled hrun.frame
    obtain ⟨hvals, harchs, hlast⟩ := (Coherent.frameRule hl hm ht hsrc h0 hmn).frame hl hm hs hsrc h0 hmn hframe hrun.entered hrun.settled
    exact hlast (harchs (hvals h1))
  intro j r ht
  have hpop : Coherent x ds n j r ⟨popped st2.mem st2.ctx true, st2.mem⟩ := by
    rcases Nat.lt_or_eq_of_le ht.le with hlt | rfl
    · have hle := Nat.le_of_lt_succ hlt
      have hread : (⟨popped st2.mem st2.ctx true, st2.mem⟩ : Dst).read (.reg j (regOff x.handleDest.arch r)) 8 =
          st2.read (.reg j (regOff x.handleDest.arch r)) 8 := by
        show load ((popped st2.mem st2.ctx true).acts j).regs _ 8 = load (st2.ctx.acts j).regs _ 8
        rw [popped_acts_ne _ _ _ (by rw [hrun.kept.frames.act]; omega)]
      exact hread.trans ((hall2 j r (ht.prev hle)).trans (read_popped st2.mem _ 8 (savedPlace_final x ds n r j)).symm)
    · exact ht.popped hl hrun.kept.frames hrun.pop h0 hmn (hall2 m)
  rw [hrun.last]
  exact hpop.slot hl ht hmn (by omega) (by rw [leBytes_length]; omega)

end Frame

/-! ## The whole stack -/

/-- The first frame's registers are those of the function being entered. -/
theorem rewriteOutermost_coherent {u : Unwinding} (hu : Unwound x n sf ds u) (hn : 2 ≤ n) (h : rewriteOutermost mem u.dest = .ok st)
    (ht : Tracked x ds n 1 j r) : Coherent x ds n j r st := by
  obtain rfl : j = 1 := Nat.le_antisymm ht.le ht.pos
  have hreg := (calleeSaved_cases ht.ordinary.calleeSaved).1
  unfold rewriteOutermost at h
  obtain ⟨c, h1, h⟩ := bind_ok.mp h
  obtain ⟨-, rfl⟩ := popFrameFuncentry_ok_iff.mp h1
  obtain rfl := Except.ok.inj h
  have hd := hu.destRun.same (setReturnAddressFuncentry_same ⟨u.dest, mem⟩ (u.dest.acts (u.dest.act + 1)).site.addr.toNat)
  generalize setReturnAddressFuncentry ⟨u.dest, mem⟩ (u.dest.acts (u.dest.act + 1)).site.addr.toNat = s at hd
  have harch : s.ctx.handle.arch = x.handleDest.arch := congrArg Handle.arch hd.handle
  have hops : s.ctx.regops = getRegops x.handleDest.arch := congrArg (fun h : Handle => getRegops h.arch) hd.handle
  have hfirst : rget ((entered s.mem s.ctx).acts 1).regs (regOff x.handleDest.arch r) =
      rget (s.ctx.acts 0).regs (regOff x.handleDest.arch r) := by
    have hnext := entered_reg s.mem s.ctx (r := r) (by rw [hops]; exact hreg) (by rw [harch]; exact ht.ordinary.ne_spReg)
      (by rw [harch]; exact ht.ordinary.notFbp) (by rw [harch]; exact ht.ordinary.notRa)
    unfold Ctx.cur at hnext
    rw [hd.act] at hnext
    exact hnext
  have hbytes : load ((entered s.mem s.ctx).acts 1).regs (regOff x.handleDest.arch r) 8 =
      load (s.ctx.acts 0).regs (regOff x.handleDest.arch r) 8 := by
    apply leVal_inj
    · rw [load_length, load_length]
    · exact hfirst
  have hzero : load ((entered s.mem s.ctx).acts 0).regs (regOff x.handleDest.arch r) 8 =
      load (s.ctx.acts 0).regs (regOff x.handleDest.arch r) 8 := by
    rw [entered_regs hd s.mem hn]
    exact load_setFbp hreg ht.ordinary.notFbp _
  unfold Coherent
  rw [savedPlace_one]
  exact hbytes.trans hzero.symm

end

end Popcorn.Runtime
