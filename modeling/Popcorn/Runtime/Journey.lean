/-
  Popcorn.Runtime.Journey — a thread that migrates again and again.

  A thread's stack is in one of two paired binaries. A migration rewrites it for the other
  binary, where the first frame is entered anew; between two migrations the thread runs. The
  frames it does not return to stay suspended: it writes to their allocas, through pointers,
  and to nothing else of them. A frame is counted from the outer end of the stack, where the
  start function is frame 0, so that it keeps its number.

  What a live value means is its bytes or, for a pointer into a frame, the alloca and the
  offset in it; `free` are the addresses that are not in a stack, and `quiet` the allocas that
  the thread does not write to.

  Proved:
  - `Migrates.landed`: the result of a migration is a stack of the other binary.
  - `Migrates.shows`, `Resumes.shows`: a migration, and a run, keep what the values mean.
  - `journey_preserves`: any number of them keep the call chain and what the values mean.
-/

import Popcorn.Runtime.Pairing

namespace Popcorn.Runtime

open Popcorn.Lib Popcorn.Metadata

/-! ## The stack of a thread -/

structure ThreadStack where
  here : Handle
  there : Handle
  pairing : Pairing here there
  mem : Mem
  n : Nat
  frames : Nat → VFrame

namespace ThreadStack

def Valid (c : ThreadStack) : Prop := Stacked c.mem c.here c.there c.n c.frames

/-- The frame with the number `e`. -/
def frame (c : ThreadStack) (e : Nat) : VFrame := c.frames (c.n - 1 - e)

/-- The records of value `t` of a frame. -/
def value (c : ThreadStack) (e t : Nat) : Option (Group × Group) := (c.pairing.groups (c.frame e).site.id)[t]?

end ThreadStack

/-- What a live value means. -/
inductive Meaning where
  | bytes (bs : List UInt8)
  | into (frame value offset : Nat)

section
variable (free : Nat → Prop) (quiet : Nat → Nat → Prop)

/-- Value `t` of frame `e` means so: its first record, which the next migration reads. -/
def Shows (c : ThreadStack) (e t : Nat) : Meaning → Prop
  | .bytes bs => ∃ g, c.value e t = some g ∧ Located (getRegops c.here.arch) g.1.first.type g.1.first.regnum ∧
      vread c.mem c.here (c.frame e) g.1.first g.1.first.valSize = some bs ∧
      (g.1.first.isAlloca = true → quiet e t ∧ skipVaList g.1.first g.2.first = false) ∧
      ∀ a, VPoints c.mem c.here (c.frame e) g.1.first a → free a
  | .into j u offset => ∃ g a b, c.value e t = some g ∧ Located (getRegops c.here.arch) g.1.first.type g.1.first.regnum ∧
      c.value j u = some a ∧ 0 < j ∧ j ≤ e ∧ skipVaList a.1.first a.2.first = false ∧ a.1.first.isAlloca = true ∧
      vaddr c.here (c.frame j) a.1.first = some b ∧ offset < a.1.first.valSize ∧
      VPoints c.mem c.here (c.frame e) g.1.first (b + offset)

/-! ## Migrations and runs -/

/-- The frames have the same call site and bounds, and the same callee-saved registers. -/
structure SameFrame (a : Arch) (f f' : VFrame) : Prop where
  site : f'.site = f.site
  cfa : f'.cfa = f.cfa
  sp : (getRegops a).sp f'.regs = (getRegops a).sp f.regs
  saved : ∀ r, isCalleeSaved a r = true → load f'.regs (regOff a r) 8 = load f.regs (regOff a r) 8

/-- The address is in an alloca of frame `i` that the thread writes to. -/
def Written (c : ThreadStack) (i a : Nat) : Prop :=
  ∃ t g, c.value i t = some g ∧ ¬ quiet i t ∧ VContains c.here (c.frame i) g.1.first a

/-- The thread has run until its next migration, with the outer `e` frames suspended: when it
    returns to them they have the registers they had, and of their bodies it has only written to
    allocas. -/
structure Resumes (c : ThreadStack) (mem : Mem) (n : Nat) (F : Nat → VFrame) (e : Nat) : Prop where
  pos : 0 < e
  le : e ≤ c.n
  lt : e < n
  stacked : Stacked mem c.here c.there n F
  same : SameFrame c.here.arch (c.frame (e - 1)) (F (n - e))
  kept : ∀ i, 0 < i → i < e → ∀ a, (getRegops c.here.arch).sp (c.frame i).regs ≤ a → a < (c.frame i).cfa → ¬ Written quiet c i a →
    mem a = c.mem a

/-- A step, and how many frames it leaves suspended. -/
inductive TravelStep : ThreadStack → Nat → ThreadStack → Prop
  | migrate {x : RewriteArgs} {mem : Mem} {n : Nat} {F df : Nat → VFrame} {out : Rewritten} (p : Pairing x.handleSrc x.handleDest)
      (h : Migrates mem x n F out) (hfree : ∀ a, free a → ¬ IntoStack x F a) (hdf : Unwinds out.mem x.handleDest out.regs n df) :
      TravelStep ⟨x.handleSrc, x.handleDest, p, mem, n, F⟩ (n - 1)
        ⟨x.handleDest, x.handleSrc, p.symm, out.mem, n - 1, fun k => df (k + 1)⟩
  | run {c : ThreadStack} {mem : Mem} {n : Nat} {F : Nat → VFrame} {e : Nat} (h : Resumes quiet c mem n F e) :
      TravelStep c e ⟨c.here, c.there, c.pairing, mem, n, F⟩

/-- Migrations and runs, with `e` frames suspended all the time. -/
inductive Journey : ThreadStack → Nat → ThreadStack → Prop
  | refl (c : ThreadStack) : Journey c c.n c
  | tail {c c' c'' : ThreadStack} {e e' : Nat} (h : Journey c e c') (hs : TravelStep free quiet c' e' c'') : Journey c (min e e') c''

end

/-! ## The result of a migration -/

section
variable {mem : Mem} {x : RewriteArgs} {n : Nat} {F : Nat → VFrame} {out : Rewritten} {k : Nat} (p : Pairing x.handleSrc x.handleDest)
  (hm : Migrates mem x n F out) {df : Nat → VFrame}

/-- The state at the end of a migration's rewrite, and the frames of the result. -/
structure Lands (p : Pairing x.handleSrc x.handleDest) (mem : Mem) (n : Nat) (F : Nat → VFrame) (out : Rewritten) (df : Nat → VFrame)
    (st : Dst) : Prop where
  state : Rewriting mem x n F (partner x.handleDest F) (frameGroups p F) (n - 1) st
  mem : st.mem = out.mem
  frames : ∀ k, 0 < k → k < n → DestAt x n (partner x.handleDest F) st k (df k)

include hm in
theorem Migrates.lands (hdf : Unwinds out.mem x.handleDest out.regs n df) : ∃ st, Lands p mem n F out df st := by
  obtain ⟨st, hr, rfl⟩ := stRewriteStack_rewriting (hm.layout p) (hm.matched p) hm.source hm.returns
  obtain ⟨df', hdf', hat⟩ := hr.unwinds (hm.layout p) hm.two (hm.addrs p)
  refine ⟨st, hr, rfl, ?_⟩
  intro k h0 hk
  rw [hdf.unique hdf' k h0 hk]
  exact hat k h0 hk

include p hm in
theorem Migrates.df_id (hdf : Unwinds out.mem x.handleDest out.regs n df) (h0 : 0 < k) (hk : k < n) :
    (df k).site.id = (F k).site.id := by
  obtain ⟨st, hl⟩ := hm.lands p hdf
  rw [(hl.frames k h0 hk).site]
  exact (getSiteById_mem (hm.stacked.dest h0 hk)).2

include p hm in
/-- The result of a migration is a stack of the other binary. -/
theorem Migrates.landed (hdf : Unwinds out.mem x.handleDest out.regs n df) :
    Stacked out.mem x.handleDest x.handleSrc (n - 1) fun k => df (k + 1) := by
  obtain ⟨st, hl⟩ := hm.lands p hdf
  have h2 := hm.two
  constructor
  case next => exact fun k hk => hdf.next (k + 1) (by omega) (by omega)
  case found =>
    show getSiteByAddr x.handleDest (df 1).site.addr = some (df 1).site
    rw [(hl.frames 1 (by omega) (by omega)).site]
    exact hm.addrs p 1 (by omega) (by omega)
  case framed =>
    intro k hk
    have hat := hl.frames (k + 1) (by omega) (by omega)
    have hb := (hm.destSite p (show 0 < k + 1 by omega) (by omega)).bounds hm.fits (by omega) (by omega)
    have h1 := hb.sp
    have h2 := hb.fbp
    refine ⟨?_, ?_, ?_⟩
    · show (df (k + 1)).cfa = (getRegops x.handleDest.arch).sp (df (k + 1)).regs + (df (k + 1)).site.frameSize.toNat
      rw [hat.cfa, hat.sp, hat.site]
      omega
    · show (getRegops x.handleDest.arch).fbp (df (k + 1)).regs + 16 = (df (k + 1)).cfa
      rw [hat.fbp, hat.cfa]
      exact h2
    · show (df (k + 1)).cfa < _
      rw [hat.cfa]
      exact destCfa_lt _ _ _ _
  case known =>
    intro k h0 hk
    refine ⟨(F (k + 1)).site, ?_⟩
    show getSiteById x.handleSrc (df (k + 1)).site.id = _
    rw [hm.df_id p hdf (show 0 < k + 1 by omega) (by omega)]
    exact p.left.byId _ _ (hm.stacked.sites (by omega))
  case start =>
    show firstFrame (df (n - 1 - 1 + 1)).site.id = true
    rw [show n - 1 - 1 + 1 = n - 1 by omega, hm.df_id p hdf (show 0 < n - 1 by omega) (by omega)]
    exact hm.stacked.start
  case inner =>
    intro k hk
    show firstFrame (df (k + 1)).site.id = false
    rw [hm.df_id p hdf (show 0 < k + 1 by omega) (by omega)]
    exact hm.stacked.inner (k + 1) (by omega)

/-! ## A migration keeps what the values mean -/

include p hm in
/-- The first record of a value in the destination. -/
theorem Migrates.cell (h0 : 0 < k) (hk : k + 1 < n) {g : Group × Group} (hg : g ∈ frameGroups p F k) :
    ∃ i : Nat, (cellsOf (frameGroups p F k))[i]? = some (g.1.first, g.2.first) ∧
      SameValue x.handleSrc.arch x.handleDest.arch g.1.first g.2.first := by
  have hc : (g.1.first, g.2.first) ∈ cellsOf (frameGroups p F k) := mem_cellsOf.mpr ⟨g, hg, rfl, List.mem_cons_self⟩
  obtain ⟨i, hi⟩ := List.mem_iff_getElem?.mp hc
  exact ⟨i, hi, (hm.pair p h0 hk).same g hg _ List.mem_cons_self _ List.mem_cons_self⟩

include hm in
/-- No stale bit hides the place of a value. -/
theorem Migrates.not_blocked (h0 : 0 < k) (hk : k + 1 < n) {tg : Target} (hfine : Fine x (partner x.handleDest F) n k tg) :
    ¬ Blocked x (partner x.handleDest F) n k tg := by
  cases tg with
  | mem a len => exact id
  | reg r => exact fun h => h (hm.clean k r h0 hk hfine.1)

include p hm in
/-- A value that does not point into the source stack is found in the destination. -/
theorem Migrates.vread_bytes (hdf : Unwinds out.mem x.handleDest out.regs n df) (h0 : 0 < k) (hk : k + 1 < n) {g : Group × Group}
    (hg : g ∈ frameGroups p F k) (hloc : Located (getRegops x.handleSrc.arch) g.1.first.type g.1.first.regnum)
    (hskip : skipVaList g.1.first g.2.first = false) {bs : List UInt8}
    (hbs : vread mem x.handleSrc (F k) g.1.first g.1.first.valSize = some bs)
    (hout : ∀ a, VPoints mem x.handleSrc (F k) g.1.first a → ¬ IntoStack x F a) :
    vread out.mem x.handleDest (df k) g.2.first g.2.first.valSize = some bs := by
  obtain ⟨st, hl⟩ := hm.lands p hdf
  obtain ⟨i, hi, hsame⟩ := hm.cell p h0 hk hg
  obtain ⟨haddr, hfine⟩ := (hm.matched p).cell_fine (hm.layout p).bodies h0 hk hi
  obtain ⟨tg, htg⟩ := Located.valTarget x (partner x.handleDest F) n k (hsame.located.mp hloc)
  have hsize := (hm.matched p).valSize_eq h0 hk hi hskip
  rw [← hl.mem, (hl.frames k h0 (by omega)).vread haddr htg (hfine tg htg) (haddr.len_le htg)]
  exact congrArg some (hl.state.value_found h0 hk hi htg (hm.not_blocked h0 hk (hfine tg htg)) hskip (by rw [hsize]; exact hbs) hout)

include p hm in
/-- A pointer into an alloca of its frame or of a caller's is re-pointed. -/
theorem Migrates.vread_pointer (hdf : Unwinds out.mem x.handleDest out.regs n df) {j : Nat} (h0 : 0 < k) (hkj : k ≤ j) (hj : j + 1 < n)
    {g a : Group × Group} (hg : g ∈ frameGroups p F k) (ha : a ∈ frameGroups p F j)
    (hloc : Located (getRegops x.handleSrc.arch) g.1.first.type g.1.first.regnum) (hskip : skipVaList a.1.first a.2.first = false)
    (halloca : a.1.first.isAlloca = true) {b offset : Nat} (hb : vaddr x.handleSrc (F j) a.1.first = some b)
    (hoff : offset < a.1.first.valSize) (hp : VPoints mem x.handleSrc (F k) g.1.first (b + offset)) :
    ∃ b', vaddr x.handleDest (df j) a.2.first = some b' ∧ VPoints out.mem x.handleDest (df k) g.2.first (b' + offset) := by
  have hl := hm.layout p
  have hma := hm.matched p
  obtain ⟨st, hland⟩ := hm.lands p hdf
  obtain ⟨i, hi, hsame⟩ := hm.cell p h0 (by omega) hg
  obtain ⟨t, ht, -⟩ := hm.cell p (show 0 < j by omega) hj ha
  obtain ⟨haddr, hfine⟩ := hma.cell_fine hl.bodies h0 (by omega) hi
  obtain ⟨tg, htg⟩ := Located.valTarget x (partner x.handleDest F) n k (hsame.located.mp hloc)
  obtain ⟨b1, b', hb1, -, -, hb', -, hlt⟩ := hma.alloca_bounds hl (by omega) hj ht halloca
  cases hb.symm.trans hb1
  have hin : VContains x.handleSrc (F j) a.1.first (b + offset) := ⟨halloca, b, hb, by omega, by omega⟩
  have hsize := hma.pointer_size hl h0 (by omega) hi hp.1 hp.2.1
  refine ⟨b', (hland.frames j (by omega) (by omega)).vaddr (hma.cell_fine hl.bodies (by omega) hj ht).1 hb', ?_⟩
  refine ⟨hsame.isPtr.trans hp.1, hsame.isAlloca.trans hp.2.1, ?_⟩
  have hmem : (a.1.first, a.2.first) ∈ cellsOf (frameGroups p F j) := List.mem_of_getElem? ht
  obtain ⟨hinto, hbelow⟩ := (hm.sourceLayout p).into_alloca hm.source hl hma h0 hkj hj hmem hin
  obtain hq | ⟨d, ⟨j', hkj', hj', a', ha', hin', b2, b2', hb2, hb2', rfl⟩, hhas⟩ :=
    (hland.state.cell h0 (by omega) hi).pointer _ hp hinto hbelow
  · -- no fixup waits for an alloca that is done
    obtain ⟨-, -, hfalse⟩ := hland.state.settled _ hq j t a.1.first a.2.first ht (.inr ⟨hkj, ⟨by omega, .inl (by omega)⟩, hskip⟩) hin
    cases hfalse
  · obtain ⟨rfl, rfl⟩ := (hm.sourceLayout p).alloca_unique hm.source hl hma (by omega) hj (by omega) hj' hmem ha' hin hin'
    cases hb.symm.trans hb2
    cases hb'.symm.trans hb2'
    have hlen : 8 ≤ tg.len := hsize.1 ▸ haddr.len_le htg
    rw [← hland.mem, (hland.frames k h0 (by omega)).vread haddr htg (hfine tg htg) hlen]
    have hread := (hhas tg htg (hm.not_blocked h0 (by omega) (hfine tg htg))).2
    rw [leBytes_length, Nat.add_sub_cancel_left] at hread
    rw [hread, Option.map_some, leVal_leBytes]
    exact congrArg some (Nat.mod_eq_of_lt (by omega))

variable {free : Nat → Prop} {quiet : Nat → Nat → Prop}

include p hm in
theorem Migrates.value (hdf : Unwinds out.mem x.handleDest out.regs n df) {e t : Nat} (h0 : 0 < e) (he : e + 1 < n) {g : Group × Group}
    (hg : (⟨x.handleSrc, x.handleDest, p, mem, n, F⟩ : ThreadStack).value e t = some g) :
    (⟨x.handleDest, x.handleSrc, p.symm, out.mem, n - 1, fun k => df (k + 1)⟩ : ThreadStack).value e t = some g.swap := by
  have hframe : n - 1 - 1 - e + 1 = n - 1 - e := by omega
  unfold ThreadStack.value ThreadStack.frame at hg ⊢
  dsimp only at hg ⊢
  rw [hframe, hm.df_id p hdf (show 0 < n - 1 - e by omega) (by omega)]
  show ((p.groups _).map Prod.swap)[t]? = _
  rw [List.getElem?_map, hg]
  rfl

include hm in
/-- A migration keeps what a value means. -/
theorem Migrates.shows (hfree : ∀ a, free a → ¬ IntoStack x F a) (hdf : Unwinds out.mem x.handleDest out.regs n df) {e t : Nat}
    (h0 : 0 < e) (he : e + 1 < n) {m : Meaning} (hs : Shows free quiet ⟨x.handleSrc, x.handleDest, p, mem, n, F⟩ e t m) :
    Shows free quiet ⟨x.handleDest, x.handleSrc, p.symm, out.mem, n - 1, fun k => df (k + 1)⟩ e t m := by
  have hframe : ∀ i, 0 < i → i + 1 < n → (⟨x.handleDest, x.handleSrc, p.symm, out.mem, n - 1, fun k => df (k + 1)⟩ : ThreadStack).frame i =
      df (n - 1 - i) := by
    intro i _ hi
    show df (n - 1 - 1 - i + 1) = _
    rw [show n - 1 - 1 - i + 1 = n - 1 - i by omega]
  have hsame : ∀ {k g}, 0 < k → k + 1 < n → g ∈ frameGroups p F k → SameValue x.handleSrc.arch x.handleDest.arch g.1.first g.2.first := by
    intro k g h0 hk hg
    obtain ⟨-, -, h⟩ := hm.cell p h0 hk hg
    exact h
  cases m with
  | bytes bs =>
    obtain ⟨g, hg, hloc, hread, halloca, hpoints⟩ := hs
    have hmem : g ∈ frameGroups p F (n - 1 - e) := List.mem_of_getElem? hg
    have hv := hsame (show 0 < n - 1 - e by omega) (by omega) hmem
    have hskip : skipVaList g.1.first g.2.first = false := by
      cases ha : g.1.first.isAlloca with
      | true => exact (halloca ha).2
      | false => exact not_skip_of_not_alloca ha
    have hread' := hm.vread_bytes p hdf (show 0 < n - 1 - e by omega) (by omega) hmem hloc hskip hread
      fun a hp => hfree a (hpoints a hp)
    refine ⟨g.swap, hm.value p hdf h0 he hg, hv.located.mp hloc, ?_, ?_, ?_⟩
    · rw [hframe e h0 he]
      exact hread'
    · intro ha
      refine ⟨(halloca (hv.isAlloca.symm.trans ha)).1, ?_⟩
      exact (skipVaList_comm _ _).trans hskip
    · -- a pointer has the bytes it had
      intro a hp
      rw [hframe e h0 he] at hp
      apply hpoints
      have hp1 : g.1.first.isPtr = true := hv.isPtr.symm.trans hp.1
      have hp2 : g.1.first.isAlloca = false := hv.isAlloca.symm.trans hp.2.1
      obtain ⟨i, hi, -⟩ := hm.cell p (show 0 < n - 1 - e by omega) (by omega) hmem
      obtain ⟨h8, h8'⟩ := (hm.matched p).pointer_size (hm.layout p) (by omega) (by omega) hi hp1 hp2
      rw [h8'] at hread
      rw [h8] at hread'
      exact ⟨hp1, hp2, (congrArg (Option.map leVal) (hread.trans hread'.symm)).trans hp.2.2⟩
  | into j u offset =>
    obtain ⟨g, a, b, hg, hloc, ha, hj0, hje, hskip, halloca, hb, hoff, hp⟩ := hs
    have hmem : g ∈ frameGroups p F (n - 1 - e) := List.mem_of_getElem? hg
    have hmema : a ∈ frameGroups p F (n - 1 - j) := List.mem_of_getElem? ha
    have hv := hsame (show 0 < n - 1 - e by omega) (by omega) hmem
    have hva := hsame (show 0 < n - 1 - j by omega) (by omega) hmema
    obtain ⟨b', hb', hp'⟩ := hm.vread_pointer p hdf (show 0 < n - 1 - e by omega) (show n - 1 - e ≤ n - 1 - j by omega) (by omega) hmem hmema
      hloc hskip halloca hb hoff hp
    obtain ⟨i, hi, -⟩ := hm.cell p (show 0 < n - 1 - j by omega) (by omega) hmema
    have hsize := (hm.matched p).valSize_eq (by omega) (by omega) hi hskip
    refine ⟨g.swap, a.swap, b', hm.value p hdf h0 he hg, hv.located.mp hloc, hm.value p hdf hj0 (by omega) ha, hj0, hje,
      (skipVaList_comm _ _).trans hskip, hva.isAlloca.trans halloca, ?_, ?_, ?_⟩
    · rw [hframe j hj0 (by omega)]
      exact hb'
    · show offset < a.2.first.valSize
      rw [hsize]
      exact hoff
    · rw [hframe e h0 he]
      exact hp'

end

/-! ## A run keeps the frames that stay suspended -/

section
variable {h : Handle} {mem mem' : Mem} {f f' g g' : VFrame} (hs : SameFrame h.arch f f')

theorem SameFrame.rget (hs : SameFrame h.arch f f') {r : UInt16} (hr : isCalleeSaved h.arch r = true) :
    rget f'.regs (regOff h.arch r) = rget f.regs (regOff h.arch r) := congrArg leVal (hs.saved r hr)

theorem SameFrame.fbp (hs : SameFrame h.arch f f') : (getRegops h.arch).fbp f'.regs = (getRegops h.arch).fbp f.regs := by
  rw [fbp_eq_rget, fbp_eq_rget]
  exact hs.rget (fbpReg_calleeSaved _)

include hs in
/-- The callers of the same frame are the same, with its save slots as they were. -/
theorem SameFrame.next (hl : SiteLayout h f.site)
    (hmem : ∀ l ∈ unwindRecords h f.site, readLe 8 mem' (padd ((getRegops h.arch).fbp f.regs) l.offset.toInt) =
      readLe 8 mem (padd ((getRegops h.arch).fbp f.regs) l.offset.toInt))
    (hlt : f.cfa < 18446744073709551616) (hg : vnext mem h f = some g) (hg' : vnext mem' h f' = some g') : SameFrame h.arch g g' := by
  have hrec : ∀ l ∈ unwindRecords h f.site, ∀ l' ∈ unwindRecords h f.site, l.reg = l'.reg → l = l' :=
    fun l h l' h' e => List.inj_on_of_nodup_map hl.nodup h h' e
  have hval : ∀ r, isCalleeSaved h.arch r = true →
      Popcorn.Runtime.rget (reload mem' h.arch ((getRegops h.arch).fbp f'.regs) (unwindRecords h f'.site) f'.regs) (regOff h.arch r) =
        Popcorn.Runtime.rget (reload mem h.arch ((getRegops h.arch).fbp f.regs) (unwindRecords h f.site) f.regs) (regOff h.arch r) := by
    intro r hr
    rw [hs.site, hs.fbp]
    apply rget_reload hl.calleeSaved hr
    · intro l hmeml hlr
      rw [hmem l hmeml]
      refine (rget_reload hl.calleeSaved hr f.regs ?_ ?_).symm
      · intro l' hmeml' hlr'
        rw [hrec l' hmeml' l hmeml (hlr'.trans hlr.symm)]
      · exact fun hnone => absurd hlr (hnone l hmeml)
    · intro hnone
      rw [hs.rget hr]
      refine (rget_reload hl.calleeSaved hr f.regs ?_ fun _ => rfl).symm
      exact fun l' hmeml' hlr' => absurd hlr' (hnone l' hmeml')
  obtain ⟨site, hsite, rfl⟩ := Option.map_eq_some_iff.mp hg
  obtain ⟨site', hsite', rfl⟩ := Option.map_eq_some_iff.mp hg'
  have hpc : (getRegops h.arch).pc (vcaller mem' h f') = (getRegops h.arch).pc (vcaller mem h f) := by
    unfold vcaller callerRegs
    rw [pc_setSp, pc_setSp, pc_setPcFromRa, pc_setPcFromRa]
    exact hval _ (raReg_calleeSaved _)
  have hsp : (getRegops h.arch).sp (vcaller mem' h f') = (getRegops h.arch).sp (vcaller mem h f) := by
    unfold vcaller
    rw [hs.cfa, sp_setSp _ _ hlt, sp_setSp _ _ hlt]
  rw [hpc] at hsite'
  cases hsite.symm.trans hsite'
  refine ⟨rfl, ?_, hsp, ?_⟩
  · dsimp only
    rw [hsp]
  · intro r hr
    have ho := (calleeSaved_cases hr).1
    have hne : r ≠ spReg h.arch := by
      rintro rfl
      rw [spReg_not_calleeSaved] at hr
      cases hr
    apply leVal_inj
    · rw [load_length, load_length]
    · show Popcorn.Runtime.rget (vcaller mem' h f') _ = Popcorn.Runtime.rget (vcaller mem h f) _
      unfold vcaller callerRegs
      rw [rget_setSp ho hne, rget_setSp ho hne, rget_setPcFromRa ho, rget_setPcFromRa ho]
      exact hval r hr

variable {v : LiveValue} (haddr : SlotAddressable h.arch v.type v.regnum v.valSize)

include hs haddr in
theorem SameFrame.vaddr : vaddr h f' v = vaddr h f v := by
  have hbase : LocationType.ofCode v.type = some .direct ∨ LocationType.ofCode v.type = some .indirect →
      ∃ off, (getRegops h.arch).reg v.regnum = .ok off ∧ Popcorn.Runtime.rget f'.regs off = Popcorn.Runtime.rget f.regs off := by
    intro ht
    obtain ⟨off, hoff, hb⟩ := base_reg h.arch f.regs (haddr.2 ht)
    obtain ⟨off', hoff', hb'⟩ := base_reg h.arch f'.regs (haddr.2 ht)
    cases hoff.symm.trans hoff'
    refine ⟨off, hoff, ?_⟩
    rw [hb, hb', hs.sp, hs.fbp]
  unfold Popcorn.Runtime.vaddr
  cases ht : LocationType.ofCode v.type with
  | none => rfl
  | some t =>
    rw [ht] at hbase
    cases t with
    | direct =>
      obtain ⟨off, hoff, hb⟩ := hbase (.inl rfl)
      rw [hoff]
      dsimp only
      rw [hb]
    | indirect =>
      obtain ⟨off, hoff, hb⟩ := hbase (.inr rfl)
      rw [hoff]
      dsimp only
      rw [hb]
    | _ => rfl

include hs haddr in
/-- A record reads the same in the same frame, where its bytes are as they were. -/
theorem SameFrame.vread (hfine : ∀ sl ∈ valSlot h f.site v, SlotFine h f.site sl) {len : Nat} (hlen : len ≤ v.valSize)
    (hmem : ∀ a, Popcorn.Runtime.vaddr h f v = some a → load mem' a len = load mem a len) :
    vread mem' h f' v len = vread mem h f v len := by
  have hva := hs.vaddr haddr
  have hread : Popcorn.Runtime.vread mem' h f' v len = Popcorn.Runtime.vread mem h f' v len :=
    vread_congr fun a ha => hmem a (hva.symm.trans ha)
  rw [hread]
  unfold Popcorn.Runtime.vread
  unfold Popcorn.Runtime.vaddr at hva
  unfold valSlot recordSlot at hfine
  cases ht : LocationType.ofCode v.type with
  | none => rfl
  | some t =>
    rw [ht] at hva hfine
    cases t with
    | register =>
      have hkeep := (hfine _ rfl).1
      rw [(calleeSaved_cases hkeep.1).1]
      refine congrArg some ?_
      have h8 : len ≤ 8 := Nat.le_trans hlen (haddr.1 ht)
      rw [← load_take f'.regs _ h8, ← load_take f.regs _ h8, hs.saved _ hkeep.1]
    | direct =>
      cases hr : (getRegops h.arch).reg v.regnum with
      | error e => rfl
      | ok off =>
        rw [hr] at hva
        dsimp only at hva ⊢
        rw [Option.some.inj hva]
    | indirect =>
      cases hr : (getRegops h.arch).reg v.regnum with
      | error e => rfl
      | ok off =>
        rw [hr] at hva
        dsimp only at hva ⊢
        rw [Option.some.inj hva]
    | constant => rfl
    | constIdx => rfl

end

section
variable {free : Nat → Prop} {quiet : Nat → Nat → Prop} {c : ThreadStack} {mem : Mem} {n : Nat} {F : Nat → VFrame} {e i : Nat}

/-- A frame of a stack that has a call site in the other binary. -/
theorem ThreadStack.Valid.pair (hc : c.Valid) (h0 : 0 < i) (hi : i < c.n)
    (hknown : ∃ s, getSiteById c.there (c.frame i).site.id = some s) :
    SiteLayout c.here (c.frame i).site ∧ Framed c.here (c.frame i) ∧
      ∃ s', PairedSite c.here c.there (c.frame i).site s' (c.pairing.groups (c.frame i).site.id) := by
  have hk : c.n - 1 - i + 1 < c.n := by omega
  obtain ⟨s', hs'⟩ := hknown
  refine ⟨hc.layout c.pairing.left hk, hc.framed _ hk, s', ?_⟩
  exact c.pairing.pair _ _ _ (c.pairing.left.byId _ _ (hc.sites (by omega))) hs' (hc.inner _ hk)

/-- What is written of a frame is in the body, apart from the other values. -/
theorem Written.apart {s' : CallSite} (hl : SiteLayout c.here (c.frame i).site) (hf : Framed c.here (c.frame i))
    (hp : PairedSite c.here c.there (c.frame i).site s' (c.pairing.groups (c.frame i).site.id)) {a : Nat} (hw : Written quiet c i a) :
    a < (getRegops c.here.arch).fbp (c.frame i).regs ∧
      (∀ l ∈ unwindRecords c.here (c.frame i).site, KeepsValues c.here.arch l.reg →
        (a : Int) < (getRegops c.here.arch).fbp (c.frame i).regs + l.offset.toInt ∨
          (getRegops c.here.arch).fbp (c.frame i).regs + l.offset.toInt + 8 ≤ a) ∧
      ∀ t g b, c.value i t = some g → (g.1.first.isAlloca = true → quiet i t) → vaddr c.here (c.frame i) g.1.first = some b →
        a < b ∨ b + g.1.first.valSize ≤ a := by
  obtain ⟨t', g', hg', hquiet', halloca', b', hb', hle, hlt⟩ := hw
  obtain ⟨haddr, hfine, -⟩ := hp.record hl (List.mem_of_getElem? hg') List.mem_cons_self
  have hbounds := hf.bounds haddr hfine hb'
  have hfbp := hf.fbp
  refine ⟨by omega, ?_, ?_⟩
  · intro l hmem hkeep
    rw [hf.vaddr_eq haddr hfine] at hb'
    obtain ⟨sl, hsl, hb'⟩ := Option.bind_eq_some_iff.mp hb'
    cases sl with
    | reg r => cases hb'
    | mem o len =>
      cases hb'
      have hat := (hfine _ hsl).1.at hf.low
      have hlen := valSlot_mem_len hsl
      have := (hfine _ hsl).2 l hmem hkeep
      omega
  · intro t g b hg hquiet hb
    have hne : t ≠ t' := by
      rintro rfl
      cases hg.symm.trans hg'
      exact hquiet' (hquiet halloca')
    have := hp.bytes_apart hl hf rfl hg hg' hne hb hb'
    omega

/-- The save slots of a suspended frame are as they were. -/
theorem Resumes.slots (hr : Resumes quiet c mem n F e) (h0 : 0 < i) (hie : i < e) {s' : CallSite}
    (hl : SiteLayout c.here (c.frame i).site) (hf : Framed c.here (c.frame i))
    (hp : PairedSite c.here c.there (c.frame i).site s' (c.pairing.groups (c.frame i).site.id)) :
    ∀ l ∈ unwindRecords c.here (c.frame i).site,
      readLe 8 mem (padd ((getRegops c.here.arch).fbp (c.frame i).regs) l.offset.toInt) =
        readLe 8 c.mem (padd ((getRegops c.here.arch).fbp (c.frame i).regs) l.offset.toInt) := by
  intro l hmem
  have hfbp := hf.fbp
  have hcfa := hf.cfa
  have hlt := hf.lt
  have hroom := hl.room
  have hsame : ∀ {o : Int}, l.offset.toInt = o → 0 ≤ o → o ≤ 8 →
      readLe 8 mem (padd ((getRegops c.here.arch).fbp (c.frame i).regs) l.offset.toInt) =
        readLe 8 c.mem (padd ((getRegops c.here.arch).fbp (c.frame i).regs) l.offset.toInt) := by
    intro o ho h1 h2
    have haddr : padd ((getRegops c.here.arch).fbp (c.frame i).regs) l.offset.toInt =
        (getRegops c.here.arch).fbp (c.frame i).regs + o.toNat := padd_eq (by omega) (by omega)
    rw [haddr]
    refine congrArg leVal (load_congr ?_)
    intro a ha ha'
    refine hr.kept i h0 hie a (by omega) (by omega) ?_
    intro hw
    have := (hw.apart hl hf hp).1
    omega
  by_cases hfb : l.reg = fbpReg c.here.arch
  · have := List.inj_on_of_nodup_map hl.nodup hmem hl.fbp hfb
    exact hsame (o := 0) (by rw [this]; rfl) (by decide) (by decide)
  · by_cases hra : l.reg = raReg c.here.arch
    · have := List.inj_on_of_nodup_map hl.nodup hmem hl.ra hra
      exact hsame (o := 8) (by rw [this]; rfl) (by decide) (by decide)
    · have hkeep : KeepsValues c.here.arch l.reg := ⟨hl.calleeSaved l hmem, hfb, hra⟩
      have hb := hl.saves l hmem hkeep
      have hat := hb.at hf.low
      have h1 := hb.1
      have h2 := hb.2
      rw [padd_slot hb hf.low (by omega)]
      refine congrArg leVal (load_congr ?_)
      intro a ha ha'
      refine hr.kept i h0 hie a (by omega) (by omega) ?_
      intro hw
      have := (hw.apart hl hf hp).2.1 l hmem hkeep
      omega

/-- The frames that stay suspended are the same frames. -/
theorem Resumes.same_frame (hr : Resumes quiet c mem n F e) (hc : c.Valid) (hi : i < e) :
    SameFrame c.here.arch (c.frame i) ((⟨c.here, c.there, c.pairing, mem, n, F⟩ : ThreadStack).frame i) := by
  have hstep : ∀ j < e, SameFrame c.here.arch (c.frame (e - 1 - j)) (F (n - 1 - (e - 1 - j))) := by
    intro j
    induction j with
    | zero =>
      intro _
      have he := hr.pos
      rw [Nat.sub_zero, show n - 1 - (e - 1) = n - e by omega]
      exact hr.same
    | succ j ih =>
      intro hj
      have hs := ih (by omega)
      have hle := hr.le
      have hlt := hr.lt
      have hknown := hr.stacked.known (n - 1 - (e - 1 - j)) (by omega) (by omega)
      rw [hs.site] at hknown
      obtain ⟨hl, hf, s', hp⟩ := hc.pair (show 0 < e - 1 - j by omega) (by omega) hknown
      have hnext := hc.next (c.n - 1 - (e - 1 - j)) (by omega)
      have hnext' := hr.stacked.next (n - 1 - (e - 1 - j)) (by omega)
      have h := hs.next hl (hr.slots (by omega) (by omega) hl hf hp) hf.lt hnext hnext'
      rw [show c.n - 1 - (e - 1 - j) + 1 = c.n - 1 - (e - 1 - (j + 1)) by omega,
        show n - 1 - (e - 1 - j) + 1 = n - 1 - (e - 1 - (j + 1)) by omega] at h
      exact h
  have h := hstep (e - 1 - i) (by omega)
  rwa [show e - 1 - (e - 1 - i) = i by omega] at h

theorem Resumes.value (hr : Resumes quiet c mem n F e) (hc : c.Valid) (hi : i < e) (t : Nat) :
    (⟨c.here, c.there, c.pairing, mem, n, F⟩ : ThreadStack).value i t = c.value i t := by
  unfold ThreadStack.value
  rw [(hr.same_frame hc hi).site]

/-- A value of a suspended frame that is not written to reads the same. -/
theorem Resumes.vread (hr : Resumes quiet c mem n F e) (hc : c.Valid) (h0 : 0 < i) (hi : i < e) {t : Nat} {g : Group × Group}
    (hg : c.value i t = some g) (hquiet : g.1.first.isAlloca = true → quiet i t) {len : Nat} (hlen : len ≤ g.1.first.valSize) :
    vread mem c.here ((⟨c.here, c.there, c.pairing, mem, n, F⟩ : ThreadStack).frame i) g.1.first len =
      vread c.mem c.here (c.frame i) g.1.first len := by
  have hs := hr.same_frame hc hi
  have hle := hr.le
  have hlt := hr.lt
  have hknown := hr.stacked.known (n - 1 - i) (by omega) (by omega)
  rw [show F (n - 1 - i) = (⟨c.here, c.there, c.pairing, mem, n, F⟩ : ThreadStack).frame i from rfl, hs.site] at hknown
  obtain ⟨hl, hf, s', hp⟩ := hc.pair h0 (by omega) hknown
  obtain ⟨haddr, hfine, -⟩ := hp.record hl (List.mem_of_getElem? hg) List.mem_cons_self
  refine hs.vread haddr hfine hlen ?_
  intro b hb
  have hbounds := hf.bounds haddr hfine hb
  refine load_congr ?_
  intro a ha ha'
  refine hr.kept i h0 hi a (by omega) (by omega) ?_
  intro hw
  have := (hw.apart hl hf hp).2.2 t g b hg hquiet hb
  omega

theorem Resumes.record (hr : Resumes quiet c mem n F e) (hc : c.Valid) (h0 : 0 < i) (hi : i < e) {t : Nat} {g : Group × Group}
    (hg : c.value i t = some g) : SlotAddressable c.here.arch g.1.first.type g.1.first.regnum g.1.first.valSize ∧
      (g.1.first.isPtr = true → g.1.first.isAlloca = false → g.1.first.valSize = 8) := by
  have hs := hr.same_frame hc hi
  have hle := hr.le
  have hlt := hr.lt
  have hknown := hr.stacked.known (n - 1 - i) (by omega) (by omega)
  rw [show F (n - 1 - i) = (⟨c.here, c.there, c.pairing, mem, n, F⟩ : ThreadStack).frame i from rfl, hs.site] at hknown
  obtain ⟨hl, -, s', hp⟩ := hc.pair h0 (by omega) hknown
  obtain ⟨haddr, -, hptr⟩ := hp.record hl (List.mem_of_getElem? hg) List.mem_cons_self
  exact ⟨haddr, hptr⟩

theorem Resumes.points_iff (hr : Resumes quiet c mem n F e) (hc : c.Valid) (h0 : 0 < i) (hi : i < e) {t : Nat} {g : Group × Group}
    (hg : c.value i t = some g) (a : Nat) :
    VPoints mem c.here ((⟨c.here, c.there, c.pairing, mem, n, F⟩ : ThreadStack).frame i) g.1.first a ↔
      VPoints c.mem c.here (c.frame i) g.1.first a := by
  have hread : g.1.first.isPtr = true → g.1.first.isAlloca = false →
      Popcorn.Runtime.vread mem c.here ((⟨c.here, c.there, c.pairing, mem, n, F⟩ : ThreadStack).frame i) g.1.first 8 =
        Popcorn.Runtime.vread c.mem c.here (c.frame i) g.1.first 8 := by
    intro h1 h2
    have h8 := (hr.record hc h0 hi hg).2 h1 h2
    exact hr.vread hc h0 hi hg (fun h => absurd (h.symm.trans h2) (by decide)) (Nat.le_of_eq h8.symm)
  constructor
  · rintro ⟨h1, h2, h3⟩
    rw [hread h1 h2] at h3
    exact ⟨h1, h2, h3⟩
  · rintro ⟨h1, h2, h3⟩
    rw [← hread h1 h2] at h3
    exact ⟨h1, h2, h3⟩

/-- A run keeps what a value means. -/
theorem Resumes.shows (hr : Resumes quiet c mem n F e) (hc : c.Valid) (h0 : 0 < i) (hi : i < e) {t : Nat} {m : Meaning}
    (hs : Shows free quiet c i t m) : Shows free quiet ⟨c.here, c.there, c.pairing, mem, n, F⟩ i t m := by
  cases m with
  | bytes bs =>
    obtain ⟨g, hg, hloc, hread, halloca, hpoints⟩ := hs
    refine ⟨g, (hr.value hc hi t).trans hg, hloc, ?_, halloca, ?_⟩
    · exact (hr.vread hc h0 hi hg (fun h => (halloca h).1) (Nat.le_refl _)).trans hread
    · exact fun a hp => hpoints a ((hr.points_iff hc h0 hi hg a).mp hp)
  | into j u offset =>
    obtain ⟨g, a, b, hg, hloc, ha, hj0, hje, hskip, halloca, hb, hoff, hp⟩ := hs
    refine ⟨g, a, b, (hr.value hc hi t).trans hg, hloc, (hr.value hc (by omega) u).trans ha, hj0, hje, hskip, halloca, ?_, hoff, ?_⟩
    · exact ((hr.same_frame hc (by omega)).vaddr (hr.record hc hj0 (by omega) ha).1).trans hb
    · exact (hr.points_iff hc h0 hi hg _).mpr hp

/-! ## Journeys -/

theorem TravelStep.valid {c c' : ThreadStack} {e : Nat} (h : TravelStep free quiet c e c') (hc : c.Valid) : c'.Valid := by
  cases h with
  | migrate p h hfree hdf => exact h.landed p hdf
  | run h => exact h.stacked

/-- A step keeps the call sites of the frames that stay suspended, and what their values mean. -/
theorem TravelStep.shows {c c' : ThreadStack} {e : Nat} (h : TravelStep free quiet c e c') (hc : c.Valid) (h0 : 0 < i) (hi : i < e) :
    (c'.frame i).site.id = (c.frame i).site.id ∧ ∀ t m, Shows free quiet c i t m → Shows free quiet c' i t m := by
  cases h with
  | @migrate x mem n F df out p h hfree hdf =>
    refine ⟨?_, fun t m hs => h.shows p hfree hdf h0 (by omega) hs⟩
    show (df (n - 1 - 1 - i + 1)).site.id = (F (n - 1 - i)).site.id
    rw [show n - 1 - 1 - i + 1 = n - 1 - i by omega]
    exact h.df_id p hdf (by omega) (by omega)
  | run h => exact ⟨congrArg CallSite.id (h.same_frame hc hi).site, fun t m hs => h.shows hc h0 hi hs⟩

end

/-- Over any number of migrations and runs the frames that stay suspended keep their call sites, and
    their live values what they mean: a value that does not point into a stack keeps its bytes, as
    an alloca does that nobody writes to, and a pointer into an alloca of its frame or of a
    caller's points there still. -/
theorem journey_preserves (free : Nat → Prop) (quiet : Nat → Nat → Prop) (c c' : ThreadStack) (e : Nat) (hc : c.Valid)
    (h : Journey free quiet c e c') : c'.Valid ∧ ∀ i, 0 < i → i < e → (c'.frame i).site.id = (c.frame i).site.id ∧
      ∀ t m, Shows free quiet c i t m → Shows free quiet c' i t m := by
  induction h with
  | refl => exact ⟨hc, fun i _ _ => ⟨rfl, fun _ _ hs => hs⟩⟩
  | tail h hs ih =>
    obtain ⟨hv, hkeep⟩ := ih
    refine ⟨hs.valid hv, ?_⟩
    intro i h0 hi
    obtain ⟨hid, hshow⟩ := hkeep i h0 (by omega)
    obtain ⟨hid', hshow'⟩ := hs.shows hv h0 (show i < _ by omega)
    exact ⟨hid'.trans hid, fun t m hm => hshow' t m (hshow t m hm)⟩

/-! ## There and back -/

/-- The frames up the stack from `f`. -/
def framesFrom (mem : Mem) (h : Handle) (f : VFrame) : Nat → VFrame
  | 0 => f
  | k + 1 => (vnext mem h (framesFrom mem h f k)).getD f

theorem framesFrom_next {mem : Mem} {h : Handle} {f : VFrame} {k : Nat} (hk : (vnext mem h (framesFrom mem h f k)).isSome = true) :
    vnext mem h (framesFrom mem h f k) = some (framesFrom mem h f (k + 1)) := by
  obtain ⟨f', hf'⟩ := Option.isSome_iff_exists.mp hk
  show _ = some ((vnext mem h (framesFrom mem h f k)).getD f)
  rw [hf']
  rfl

/-- What a rewrite returns, and the frames of a stack to rewrite and of the result. -/
def rewritten (mem : Mem) (x : RewriteArgs) : Rewritten :=
  (stRewriteStack mem x).toOption.join.getD
    ⟨x.regsetSrc, mem, ⟨x.handleDest, 0, 0, 0, 0, fun _ => ⟨emptyCallSite, 0, fun _ => 0, ⟨0, 0⟩⟩, [], fun _ => 0⟩⟩
def regFrames (mem : Mem) (x : RewriteArgs) : Nat → VFrame :=
  framesFrom mem x.handleSrc ((vframe x.handleSrc x.regsetSrc).getD ⟨emptyCallSite, x.regsetSrc, 0⟩)
def resultFrames (mem : Mem) (x : RewriteArgs) : Nat → VFrame :=
  framesFrom (rewritten mem x).mem x.handleDest
    ((ventry (rewritten mem x).mem x.handleDest (rewritten mem x).regs).getD ⟨emptyCallSite, x.regsetSrc, 0⟩)

instance (h : Handle) (f : VFrame) : Decidable (Framed h f) :=
  decidable_of_iff (f.cfa = (getRegops h.arch).sp f.regs + f.site.frameSize.toNat ∧ (getRegops h.arch).fbp f.regs + 16 = f.cfa ∧
    f.cfa < 18446744073709551616) ⟨fun h => ⟨h.1, h.2.1, h.2.2⟩, fun h => ⟨h.cfa, h.fbp, h.lt⟩⟩

instance (x : RewriteArgs) (ds : Nat → CallSite) (n : Nat) : Decidable (Fits x ds n) :=
  decidable_of_iff (frameSpan ds (n - 1) + 16 ≤ x.spBaseDest ∧ x.spBaseDest + 16 < 18446744073709551616)
    ⟨fun h => ⟨h.1, h.2⟩, fun h => ⟨h.below, h.above⟩⟩

/-- A rewrite of a stack of four frames, in a clean pool, that can be run. -/
def Runs (mem : Mem) (x : RewriteArgs) (F : Nat → VFrame) : Prop :=
  (vframe x.handleSrc x.regsetSrc).isSome = true ∧ getSiteByAddr x.handleSrc (F 0).site.addr = some (F 0).site ∧
    (∀ k < 3, (vnext mem x.handleSrc (F k)).isSome = true ∧ Framed x.handleSrc (F k) ∧ (F k).cfa ≤ x.spBaseSrc ∧
      (getSiteById x.handleDest (F (k + 1)).site.id).isSome = true ∧ firstFrame (F k).site.id = false) ∧
    firstFrame (F 3).site.id = true ∧ 0 < (getRegops x.handleSrc.arch).sp (F 0).regs ∧ Fits x (partner x.handleDest F) 4 ∧
    ((F 2).cfa ≤ destLow x 4 (partner x.handleDest F) ∨
      destHigh x 4 (partner x.handleDest F) ≤ (getRegops x.handleSrc.arch).sp (F 0).regs) ∧
    (stRewriteStack mem x).toOption.join.isSome = true ∧
    (ventry (rewritten mem x).mem x.handleDest (rewritten mem x).regs).isSome = true ∧
    ∀ k < 2, (vnext (rewritten mem x).mem x.handleDest (resultFrames mem x k)).isSome = true

instance (mem : Mem) (x : RewriteArgs) (F : Nat → VFrame) : Decidable (Runs mem x F) := inferInstanceAs (Decidable (_ ∧ _))

section
variable {mem : Mem} {x : RewriteArgs} (hr : Runs mem x (regFrames mem x))

include hr in
theorem Runs.migrates (hc : PoolClean x.freshDest.pool 4) : Migrates mem x 4 (regFrames mem x) (rewritten mem x) := by
  obtain ⟨hfirst, hfound, hframes, hstart, hsp, hfits, hapart, hret, -⟩ := hr
  constructor
  case two => decide
  case stacked =>
    refine ⟨fun k hk => framesFrom_next (hframes k (by omega)).1, hfound, fun k hk => (hframes k (by omega)).2.1, ?_, hstart,
      fun k hk => (hframes k (by omega)).2.2.2.2⟩
    intro k h0 hk
    obtain ⟨j, rfl⟩ : ∃ j, k = j + 1 := ⟨k - 1, by omega⟩
    exact Option.isSome_iff_exists.mp (hframes j (by omega)).2.2.2.1
  case first =>
    obtain ⟨f, hf⟩ := Option.isSome_iff_exists.mp hfirst
    show _ = some ((vframe x.handleSrc x.regsetSrc).getD _)
    rw [hf]
    rfl
  case sp => exact hsp
  case base => exact fun k hk => (hframes k (by omega)).2.2.1
  case fits => exact hfits
  case apart => exact hapart
  case clean => exact fun k r h0 hk ho => NoStaleBit.of_clean hc _ (by omega) ho.calleeSaved
  case returns =>
    show _ = Except.ok (some ((stRewriteStack mem x).toOption.join.getD _))
    cases h : stRewriteStack mem x with
    | error e =>
      rw [h] at hret
      cases hret
    | ok out =>
      cases out with
      | none =>
        rw [h] at hret
        cases hret
      | some out => rfl

include hr in
theorem Runs.unwinds : Unwinds (rewritten mem x).mem x.handleDest (rewritten mem x).regs 4 fun k => resultFrames mem x (k - 1) := by
  obtain ⟨-, -, -, -, -, -, -, -, hentry, hnext⟩ := hr
  constructor
  · obtain ⟨f, hf⟩ := Option.isSome_iff_exists.mp hentry
    show _ = some ((ventry (rewritten mem x).mem x.handleDest (rewritten mem x).regs).getD _)
    rw [hf]
    rfl
  · intro k h0 hk
    obtain ⟨j, rfl⟩ : ∃ j, k = j + 1 := ⟨k - 1, by omega⟩
    exact framesFrom_next (hnext j (by omega))

end

def tripStop : CallSite := ⟨11, 0x5000, 32, 2, 0, 0, 0, 0, 0⟩

/-- The aarch64 binary of `demoDest`, with a call site to stop at. -/
def tripDest : Handle where
  arch := .aarch64
  unwindAddrs := []
  unwindLocs := (demoDest false).unwindLocs
  sitesId := [⟨1, 0x5100, 48, 2, 0, 1, 0, 0, 0⟩, ⟨2, 0x5200, 80, 3, 0, 2, 1, 0, 0⟩, tripStop, ⟨uint64Max, 0x5300, 32, 2, 0, 0, 3, 0, 0⟩]
  sitesAddr := tripStop :: demoSites 0x5000 48 80 32
  liveVals := (demoDest false).liveVals
  liveValsCount := 3
  archLiveVals := []
  sites_len := rfl

theorem described_of {h : Handle} (hsites : ∀ s ∈ h.sitesAddr, firstFrame s.id = false → SiteLayout h s)
    (hid : ∀ s ∈ h.sitesAddr, getSiteById h s.id = some s) (haddr : ∀ s ∈ h.sitesId, getSiteByAddr h s.addr = some s) : Described h where
  sites _ _ hs := hsites _ (getSiteByAddr_mem hs).1
  byId _ _ hs := hid _ (getSiteByAddr_mem hs).1
  byAddr _ _ hs := haddr _ (getSiteById_mem hs).1

theorem trip_described : Described (demoSrc false) ∧ Described tripDest := by
  constructor
  · refine described_of ?_ (by decide) (by decide)
    intro s hs
    have hcases : s = demoStop ∨ s = ⟨1, 0x1100, 32, 2, 0, 1, 0, 0, 0⟩ ∨ s = ⟨2, 0x1200, 64, 3, 0, 2, 1, 0, 0⟩ ∨
        s = ⟨uint64Max, 0x1300, 16, 2, 0, 0, 3, 0, 0⟩ := by
      simpa [demoSrc, demoSites] using hs
    obtain rfl | rfl | rfl | rfl := hcases
    · exact fun _ => by constructor <;> decide
    · exact fun _ => by constructor <;> decide
    · exact fun _ => by constructor <;> decide
    · exact fun h => absurd h (by decide)
  · refine described_of ?_ (by decide) (by decide)
    intro s hs
    have hcases : s = tripStop ∨ s = ⟨1, 0x5100, 48, 2, 0, 1, 0, 0, 0⟩ ∨ s = ⟨2, 0x5200, 80, 3, 0, 2, 1, 0, 0⟩ ∨
        s = ⟨uint64Max, 0x5300, 32, 2, 0, 0, 3, 0, 0⟩ := by
      simpa [tripDest, demoSites] using hs
    obtain rfl | rfl | rfl | rfl := hcases
    · exact fun _ => by constructor <;> decide
    · exact fun _ => by constructor <;> decide
    · exact fun _ => by constructor <;> decide
    · exact fun h => absurd h (by decide)

def tripGroups (i : UInt64) : List (Group × Group) := demoGroups false i.toNat

theorem trip_pair (i : UInt64) (s s' : CallSite) (hs : getSiteById (demoSrc false) i = some s) (hs' : getSiteById tripDest i = some s')
    (hi : firstFrame i = false) : PairedSite (demoSrc false) tripDest s s' (tripGroups i) := by
  obtain ⟨hmem, rfl⟩ := getSiteById_mem hs
  obtain ⟨hmem', hid⟩ := getSiteById_mem hs'
  have hcases : s = ⟨1, 0x1100, 32, 2, 0, 1, 0, 0, 0⟩ ∨ s = ⟨2, 0x1200, 64, 3, 0, 2, 1, 0, 0⟩ ∨ s = demoStop ∨
      s = ⟨uint64Max, 0x1300, 16, 2, 0, 0, 3, 0, 0⟩ := by
    simpa [demoSrc] using hmem
  have hcases' : s' = ⟨1, 0x5100, 48, 2, 0, 1, 0, 0, 0⟩ ∨ s' = ⟨2, 0x5200, 80, 3, 0, 2, 1, 0, 0⟩ ∨ s' = tripStop ∨
      s' = ⟨uint64Max, 0x5300, 32, 2, 0, 0, 3, 0, 0⟩ := by
    simpa [tripDest] using hmem'
  have hptr : SameValue .x86_64 .aarch64 (demoPtr 6) (demoPtr 29) :=
    ⟨.inl rfl, rfl, rfl, iff_of_true ⟨.inr (.inr rfl), 56, rfl⟩ ⟨.inr (.inr rfl), 248, rfl⟩⟩
  have hint : SameValue .x86_64 .aarch64 (demoInt 3) (demoInt 19) :=
    ⟨.inl rfl, rfl, rfl, iff_of_true ⟨.inl rfl, 32, rfl⟩ ⟨.inl rfl, 168, rfl⟩⟩
  have halloca : SameValue .x86_64 .aarch64 (demoAlloca 6 (-40) 16) (demoAlloca 29 (-48) 16) :=
    ⟨.inl rfl, rfl, rfl, iff_of_true ⟨.inr (.inl rfl), 56, rfl⟩ ⟨.inr (.inl rfl), 248, rfl⟩⟩
  obtain rfl | rfl | rfl | rfl := hcases
  · obtain rfl | rfl | rfl | rfl := hcases'
    · refine ⟨?_, ?_, rfl, rfl, ?_, ?_⟩
      · apply GroupsAt.single <;> decide
      · apply GroupsAt.single <;> decide
      · intro g hg v hv w hw
        obtain rfl := List.mem_singleton.mp hg
        obtain rfl := List.mem_singleton.mp hv
        obtain rfl := List.mem_singleton.mp hw
        exact hptr
      · intro g hg ha
        obtain rfl := List.mem_singleton.mp hg
        cases ha
    all_goals exact absurd hid (by decide)
  · obtain rfl | rfl | rfl | rfl := hcases'
    · exact absurd hid (by decide)
    · refine ⟨?_, ?_, rfl, rfl, ?_, ?_⟩
      · apply GroupsAt.single <;> decide
      · apply GroupsAt.single <;> decide
      · intro g hg v hv w hw
        obtain rfl | hg := List.mem_cons.mp hg
        · obtain rfl := List.mem_singleton.mp hv
          obtain rfl := List.mem_singleton.mp hw
          exact hint
        · obtain rfl := List.mem_singleton.mp hg
          obtain rfl := List.mem_singleton.mp hv
          obtain rfl := List.mem_singleton.mp hw
          exact halloca
      · intro g hg ha
        obtain rfl | hg := List.mem_cons.mp hg
        · cases ha
        · obtain rfl := List.mem_singleton.mp hg
          exact ⟨⟨rfl, .inl rfl⟩, rfl, .inl rfl⟩
    all_goals exact absurd hid (by decide)
  · obtain rfl | rfl | rfl | rfl := hcases'
    all_goals exact absurd hid (by decide)
  · cases hi

def tripPairing : Pairing (demoSrc false) tripDest where
  groups := tripGroups
  left := trip_described.1
  right := trip_described.2
  pair := trip_pair

/-- The thread migrates, -/
def tripOut : RewriteArgs := { demoArgs false false with handleDest := tripDest }
/-- calls a function that writes through the pointer, where it stops, -/
def tripWrites (fbp : Nat) (mem : Mem) : Mem :=
  [(0x3FF50, fbp), (0x3FF58, 0x5100), (0x3FFA4, 7)].foldl (fun m p => store m p.1 (leBytes 8 p.2)) mem
def tripMem : Mem := tripWrites ((getRegops .aarch64).fbp (resultFrames demoMem tripOut 0).regs) (rewritten demoMem tripOut).mem
/-- and migrates back. -/
def tripBack : RewriteArgs where
  handleSrc := tripDest
  regsetSrc := rset (rset (rset (resultFrames demoMem tripOut 0).regs 8 0x5000) 0 0x3FF40) 248 0x3FF50
  spBaseSrc := 0x40000
  freshSrc := ⟨fun _ => ⟨emptyCallSite, 0, fun _ => 0, ⟨0, 0⟩⟩, fun _ => 0⟩
  handleDest := demoSrc false
  spBaseDest := 0x20000
  freshDest := ⟨fun _ => ⟨emptyCallSite, 0, fun _ => 0, ⟨0, 0⟩⟩, fun _ => 0⟩
  foundFixup _ := false

theorem trip_runs : Runs demoMem tripOut (regFrames demoMem tripOut) ∧ Runs tripMem tripBack (regFrames tripMem tripBack) := by
  decide +kernel

/-- The frames `G` of the first result, and those of the stack that grew from it. -/
def TripFrames (G F : Nat → VFrame) : Prop :=
  ((F 1).site = (G 0).site ∧ (F 1).cfa = (G 0).cfa ∧ (getRegops .aarch64).sp (F 1).regs = (getRegops .aarch64).sp (G 0).regs ∧
    (propertiesAarch64.calleeSaved.map fun r => load (F 1).regs (regOff .aarch64 r) 8) =
      propertiesAarch64.calleeSaved.map fun r => load (G 0).regs (regOff .aarch64 r) 8) ∧
  (0x3FF60 ≤ (getRegops .aarch64).sp (G 0).regs ∧ (G 0).cfa ≤ 0x3FFA0) ∧
  (0x3FF60 ≤ (getRegops .aarch64).sp (G 1).regs ∧ (G 1).site.id = 2) ∧
  vaddr tripDest (G 1) (demoAlloca 29 (-48) 16) = some 0x3FFA0

instance (G F : Nat → VFrame) : Decidable (TripFrames G F) := inferInstanceAs (Decidable (_ ∧ _))

theorem trip_frames : TripFrames (resultFrames demoMem tripOut) (regFrames tripMem tripBack) := by decide +kernel

theorem trip_resumes {mem : Mem} {fbp : Nat} {G F : Nat → VFrame} (ht : TripFrames G F)
    (hs : Stacked (tripWrites fbp mem) tripDest (demoSrc false) 4 F) :
    Resumes (fun _ _ => False) ⟨tripDest, demoSrc false, tripPairing.symm, mem, 3, G⟩ (tripWrites fbp mem) 4 F 3 := by
  obtain ⟨⟨hsite, hcfa, hsp, hsaved⟩, ⟨hlow0, hhigh0⟩, ⟨hlow1, hid1⟩, halloca⟩ := ht
  constructor
  case pos => decide
  case le => exact Nat.le_refl 3
  case lt => decide
  case stacked => exact hs
  case same => exact ⟨hsite, hcfa, hsp, fun r hr => List.map_inj_left.mp hsaved r (List.contains_iff_mem.mp hr)⟩
  case kept =>
    -- the frame of the function it calls is below, and what it writes is in the alloca
    intro i h0 hi a hlo hhi hw
    have hout : ¬ (0x3FFA0 ≤ a ∧ a < 0x3FFB0) := by
      rintro ⟨h1, h2⟩
      obtain rfl | rfl : i = 1 ∨ i = 2 := by omega
      · refine hw ⟨1, (.single (demoAlloca 29 (-48) 16) rfl, .single (demoAlloca 6 (-40) 16) rfl), ?_, id, rfl, 0x3FFA0, halloca, h1, h2⟩
        show ((tripGroups (G 1).site.id).map Prod.swap)[1]? = _
        rw [hid1]
        rfl
      · have hlt : a < (G 0).cfa := hhi
        omega
    have hbelow : 0x3FF60 ≤ a := by
      obtain rfl | rfl : i = 1 ∨ i = 2 := by omega
      · exact Nat.le_trans hlow1 hlo
      · exact Nat.le_trans hlow0 hlo
    unfold tripWrites
    simp only [List.foldl_cons, List.foldl_nil]
    rw [store_apart (by rw [leBytes_length]; omega), store_apart (by rw [leBytes_length]; omega), store_apart (by rw [leBytes_length]; omega)]

/-- The integer of the outer function, and the pointer of the inner one. -/
theorem trip_shows {F : Nat → VFrame} (hid : (F 1).site.id = 1 ∧ (F 2).site.id = 2)
    (hint : vread demoMem (demoSrc false) (F 2) (demoInt 3) 8 = some (leBytes 8 0x2A))
    (hptr : (vread demoMem (demoSrc false) (F 1) (demoPtr 6) 8).map leVal = some (0x10038 + 4))
    (halloca : vaddr (demoSrc false) (F 2) (demoAlloca 6 (-40) 16) = some 0x10038) :
    Shows (fun _ => False) (fun _ _ => False) ⟨demoSrc false, tripDest, tripPairing, demoMem, 4, F⟩ 1 0 (.bytes (leBytes 8 0x2A)) ∧
      Shows (fun _ => False) (fun _ _ => False) ⟨demoSrc false, tripDest, tripPairing, demoMem, 4, F⟩ 2 0 (.into 1 1 4) := by
  have hvalues : ∀ t, (⟨demoSrc false, tripDest, tripPairing, demoMem, 4, F⟩ : ThreadStack).value 1 t = (demoGroups false 2)[t]? := by
    intro t
    show (tripGroups (F 2).site.id)[t]? = _
    rw [hid.2]
    rfl
  have hinner : (⟨demoSrc false, tripDest, tripPairing, demoMem, 4, F⟩ : ThreadStack).value 2 0 = (demoGroups false 1)[0]? := by
    show (tripGroups (F 1).site.id)[0]? = _
    rw [hid.1]
    rfl
  have hpoints : VPoints demoMem (demoSrc false) (F 1) (demoPtr 6) (0x10038 + 4) := ⟨rfl, rfl, hptr⟩
  constructor
  · refine ⟨_, hvalues 0, ⟨.inl rfl, 32, rfl⟩, hint, ?_, ?_⟩
    · intro h
      cases h
    · rintro a ⟨h, -⟩
      cases h
  · refine ⟨_, _, 0x10038, hinner, ⟨.inr (.inr rfl), 56, rfl⟩, hvalues 1, ?_⟩
    exact ⟨by decide, by decide, rfl, rfl, halloca, by decide, hpoints⟩

theorem journey_preserves_trip : ∃ c c', Journey (fun _ => False) (fun _ _ => False) c 3 c' ∧ c'.Valid ∧
    Shows (fun _ => False) (fun _ _ => False) c' 1 0 (.bytes (leBytes 8 0x2A)) ∧
    Shows (fun _ => False) (fun _ _ => False) c' 2 0 (.into 1 1 4) := by
  have hgo := trip_runs.1.migrates fun _ _ _ _ _ => rfl
  have hback := trip_runs.2.migrates fun _ _ _ _ _ => rfl
  have hrun := trip_resumes trip_frames hback.stacked
  have hj : Journey (fun _ => False) (fun _ _ => False) ⟨demoSrc false, tripDest, tripPairing, demoMem, 4, regFrames demoMem tripOut⟩ 3
      ⟨demoSrc false, tripDest, tripPairing.symm.symm, (rewritten tripMem tripBack).mem, 3, fun k => resultFrames tripMem tripBack (k + 1 - 1)⟩ :=
    (((Journey.refl _).tail (.migrate tripPairing hgo (fun _ h => h.elim) trip_runs.1.unwinds)).tail (.run hrun)).tail
      (.migrate tripPairing.symm hback (fun _ h => h.elim) trip_runs.2.unwinds)
  obtain ⟨hvalid, hkeep⟩ := journey_preserves (fun _ => False) (fun _ _ => False) ⟨_, _, tripPairing, demoMem, 4, regFrames demoMem tripOut⟩ _ 3
    hgo.stacked hj
  obtain ⟨hint, hptr⟩ := trip_shows (F := regFrames demoMem tripOut) (by decide) (by decide) (by decide) (by decide)
  exact ⟨_, _, hj, hvalid, (hkeep 1 (by decide) (by decide)).2 _ _ hint, (hkeep 2 (by decide) (by decide)).2 _ _ hptr⟩

end Popcorn.Runtime
