/-
  Popcorn.Runtime.Later — what is still to come for a frame whose values are copied.

  Each activation of the destination has its own register set. The values of a frame are
  copied to it while the frame is rewritten; after that one of its registers changes only
  when a fixup for it is resolved, by `fixup_local_pointers` or when an outer frame is
  rewritten (`Later`). At the end of the walk over a frame's values the fixups of its
  pointers wait, but for those that an alloca with a later record has taken (`Walked`).

  Proved:
  - `rewriteVal_walked`: which fixups of the frame wait after each record.
  - `FrameRun.later`, `StepRun.later`: the rest of a frame, and the frames after it.
-/

import Popcorn.Runtime.ArchValues
import Popcorn.Runtime.FrameRule

namespace Popcorn.Runtime

open Popcorn.Lib Popcorn.Metadata

/-! ## The registers of an activation -/

/-- A live value is recorded in the register. -/
def InReg (w : LiveValue) (r : UInt16) : Prop := LocationType.ofCode w.type = some .register ∧ w.regnum = r

theorem getValLoc_cases {c : Ctx} {type : Fin 16} {r : UInt16} {offset : Int} {act : Nat} {l : Loc}
    (h : getValLoc c type r offset act = .ok l) :
    (LocationType.ofCode type = some .register ∧ ∃ off, c.regops.reg r = .ok off ∧ l = .reg act off) ∨
      (LocationType.ofCode type ≠ some .register ∧ ∃ a, l = .mem a) := by
  unfold getValLoc at h
  cases ht : LocationType.ofCode type with
  | none =>
    rw [ht] at h
    cases h
  | some t =>
    rw [ht] at h
    cases t with
    | register =>
      obtain ⟨off, hoff, h⟩ := bind_ok.mp h
      exact .inl ⟨rfl, off, hoff, (Except.ok.inj h).symm⟩
    | direct =>
      obtain ⟨off, -, h⟩ := bind_ok.mp h
      exact .inr ⟨by simp, _, (Except.ok.inj h).symm⟩
    | indirect =>
      obtain ⟨off, -, h⟩ := bind_ok.mp h
      exact .inr ⟨by simp, _, (Except.ok.inj h).symm⟩
    | constant => cases h
    | constIdx => cases h

/-- The second location of a value is no register of an inner activation but the outermost. -/
theorem calleeAddr_cases {c : Ctx} {type : Fin 16} {r : UInt16} {k : Nat} {l : Loc} (h : calleeAddr c type r k = .ok (some l)) :
    (∃ a, l = .mem a) ∨ ∃ off, l = .reg 0 off := by
  unfold calleeAddr calleeSavedLoc at h
  split at h
  · split at h
    · cases h
    · cases l with
      | mem a => exact .inl ⟨a, rfl⟩
      | reg j off =>
        obtain ⟨rfl, -⟩ := savedLocLoop_live _ h
        exact .inr ⟨off, rfl⟩
  · cases h

section
variable {st st' : Dst} {k off : Nat} (h0 : 0 < k)

include h0 in
theorem writeBoth_act {c : Ctx} {type : Fin 16} {r : UInt16} {act : Nat} {l : Loc} {s : Option Loc} {bs : List UInt8} {len : Nat}
    (hs : calleeAddr c type r act = .ok s) (hd : (Loc.reg k off).Disj len l bs.length) :
    (writeBoth st l s bs).read (.reg k off) len = st.read (.reg k off) len := by
  unfold writeBoth
  cases s with
  | none => exact read_writeLoc_disj st hd
  | some l' =>
    refine (read_writeLoc_disj _ ?_).trans (read_writeLoc_disj st hd)
    rcases calleeAddr_cases hs with ⟨a, rfl⟩ | ⟨o, rfl⟩
    · trivial
    · exact .inl (by omega)

include h0 in
theorem writeBoth_own {c : Ctx} {type : Fin 16} {r : UInt16} {act : Nat} {s : Option Loc} {bs : List UInt8}
    (hs : calleeAddr c type r act = .ok s) (hbs : bs.length = 8) : (writeBoth st (.reg k off) s bs).read (.reg k off) 8 = bs := by
  have hfirst : (writeLoc st (.reg k off) bs).read (.reg k off) 8 = bs := by
    rw [read_writeLoc_same st _ (Nat.le_of_eq hbs.symm), List.take_of_length_le (Nat.le_of_eq hbs)]
  unfold writeBoth
  cases s with
  | none => exact hfirst
  | some l' =>
    refine (read_writeLoc_disj _ ?_).trans hfirst
    rcases calleeAddr_cases hs with ⟨a, rfl⟩ | ⟨o, rfl⟩
    · trivial
    · exact .inl (by omega)

/-- A location of another activation. -/
theorem getValLoc_disj {c : Ctx} {type : Fin 16} {r : UInt16} {offset : Int} {act len len' : Nat} {l : Loc}
    (h : getValLoc c type r offset act = .ok l) (hne : act ≠ k) : (Loc.reg k off).Disj len l len' := by
  rcases getValLoc_cases h with ⟨-, off', -, rfl⟩ | ⟨-, a, rfl⟩
  · exact .inl hne.symm
  · trivial

include h0 in
theorem putVal_act {src : Ctx} {i : Nat} {w : LiveValue} (h : putVal src i st w = .ok st') (hne : src.act ≠ k) :
    st'.read (.reg k off) 8 = st.read (.reg k off) 8 := by
  unfold putVal at h
  split at h
  · cases h
    rfl
  · obtain ⟨bs, -, h⟩ := bind_ok.mp h
    obtain ⟨l, hl, h⟩ := bind_ok.mp h
    obtain ⟨s, hs, h⟩ := bind_ok.mp h
    cases h
    exact writeBoth_act h0 hs (getValLoc_disj hl hne)

include h0 in
theorem putValArch_act {v : ArchLiveValue} (h : putValArch st v = .ok st') (hne : st.ctx.act ≠ k) :
    st'.read (.reg k off) 8 = st.read (.reg k off) 8 := by
  unfold putValArch at h
  obtain ⟨l, hl, h⟩ := bind_ok.mp h
  obtain ⟨s, hs, h⟩ := bind_ok.mp h
  obtain ⟨operand, -, h⟩ := bind_ok.mp h
  obtain ⟨value, -, h⟩ := bind_ok.mp h
  cases h
  exact writeBoth_act h0 hs (getValLoc_disj hl hne)

include h0 in
/-- A fixup's pointer is written to the register it is for, and to no other. -/
theorem putValData_act {w : LiveValue} {act d : Nat} {r : UInt16} (h : putValData st w act d = .ok st')
    (hr : st.ctx.regops.reg r = .ok off) : (act = k ∧ InReg w r ∧ st'.read (.reg k off) 8 = leBytes 8 d) ∨
      (¬ (act = k ∧ InReg w r) ∧ st'.read (.reg k off) 8 = st.read (.reg k off) 8) := by
  unfold putValData at h
  split at h
  · rename_i hc
    cases h
    refine .inr ⟨?_, rfl⟩
    intro ⟨_, ht, _⟩
    unfold isConstant at hc
    rw [ht] at hc
    exact absurd hc (by decide)
  · obtain ⟨l, hl, h⟩ := bind_ok.mp h
    obtain ⟨s, hs, h⟩ := bind_ok.mp h
    cases h
    by_cases hown : act = k ∧ InReg w r
    · obtain ⟨rfl, ht, hreg⟩ := hown
      rcases getValLoc_cases hl with ⟨-, off', hoff, rfl⟩ | ⟨hne, -⟩
      · rw [hreg, hr] at hoff
        cases hoff
        exact .inl ⟨rfl, ⟨ht, hreg⟩, writeBoth_own h0 hs (leBytes_length 8 d)⟩
      · exact absurd ht hne
    · refine .inr ⟨hown, writeBoth_act h0 hs ?_⟩
      rw [leBytes_length]
      rcases getValLoc_cases hl with ⟨ht, off', hoff, rfl⟩ | ⟨-, a, rfl⟩
      · by_cases hact : act = k
        · exact .inr (reg_disj hr hoff fun e => hown ⟨hact, ht, e.symm⟩)
        · exact .inl (Ne.symm hact)
      · trivial

end

/-! ## What is still to come -/

section Def
variable (x : RewriteArgs) (n : Nat) (sf : Nat → VFrame) (ds : Nat → CallSite) (gs : Nat → List (Group × Group))

/-- A fixup of frame `k` for a pointer to `addr` is resolved to `d`: in its own frame, or at an
    alloca of an outer one that is not skipped. -/
def ResolvesTo (k addr d : Nat) : Prop := ∃ j, k ≤ j ∧ j + 1 < n ∧ IntoFrame x n sf ds gs j k addr d

/-- A fixup for the register of frame `k` waits in the queue. -/
def Pending (q : List Fixup) (k : Nat) (r : UInt16) : Prop := ∃ f ∈ q, f.act = k ∧ InReg f.destLoc r

/-- The register has the address a fixup of the queue was resolved to. -/
def Resolved (k : Nat) (q : List Fixup) (st : Dst) (r : UInt16) (off : Nat) : Prop :=
  ∃ f ∈ q, f.act = k ∧ InReg f.destLoc r ∧ ∃ d, ResolvesTo x n sf ds gs k f.srcAddr d ∧ st.read (.reg k off) 8 = leBytes 8 d

/-- A target of frame `k` that is none of its live values'. -/
def Loose (k : Nat) (tg : Target) : Prop :=
  Fine x ds n k tg ∧ ∀ c ∈ cellsOf (gs k), ∀ tg' ∈ valTarget x ds n k c.2, tg'.Disj tg

/-- From `st` with the queue `q` on, the rewrite has come to `st'` with `q'`: a register of frame
    `k` is as before or has a resolved address, which it has if its fixup is no longer in the
    queue. -/
structure Later (k : Nat) (q q' : List Fixup) (st st' : Dst) : Prop where
  queue : ∀ f ∈ q', f.act = k → f ∈ q
  regs : ∀ r off, (getRegops x.handleDest.arch).reg r = .ok off →
    st'.read (.reg k off) 8 = st.read (.reg k off) 8 ∨ Resolved x n sf ds gs k q st' r off
  gone : ∀ r off, (getRegops x.handleDest.arch).reg r = .ok off → Pending q k r → ¬ Pending q' k r → Resolved x n sf ds gs k q st' r off
  places : ∀ tg, Loose x n ds gs k tg → st'.read (place x ds n k tg) tg.len = st.read (place x ds n k tg) tg.len

end Def

section
variable {mem : Mem} {x : RewriteArgs} {n : Nat} {sf : Nat → VFrame} {ds : Nat → CallSite} {gs : Nat → List (Group × Group)}
  {st0 st st' st'' : Dst} {k m t : Nat} {q q' q'' : List Fixup}

theorem Resolved.same {r : UInt16} {off : Nat} (h : Resolved x n sf ds gs k q st r off)
    (hs : st'.read (.reg k off) 8 = st.read (.reg k off) 8) : Resolved x n sf ds gs k q st' r off := by
  obtain ⟨f, hf, hact, hreg, d, hd, hread⟩ := h
  exact ⟨f, hf, hact, hreg, d, hd, hs.trans hread⟩

theorem Resolved.sub {r : UInt16} {off : Nat} (h : Resolved x n sf ds gs k q' st r off) (hq : ∀ f ∈ q', f.act = k → f ∈ q) :
    Resolved x n sf ds gs k q st r off := by
  obtain ⟨f, hf, hact, hrest⟩ := h
  exact ⟨f, hq f hf hact, hact, hrest⟩

/-- A step that resolves no fixup of the frame and writes none of its registers. -/
theorem Later.quiet (hq : ∀ f ∈ q', f.act = k → f ∈ q) (hq' : ∀ f ∈ q, f ∈ q')
    (hreg : ∀ off, st'.read (.reg k off) 8 = st.read (.reg k off) 8)
    (hplace : ∀ tg, Loose x n ds gs k tg → st'.read (place x ds n k tg) tg.len = st.read (place x ds n k tg) tg.len) :
    Later x n sf ds gs k q q' st st' where
  queue := hq
  regs _ off _ := .inl (hreg off)
  gone r off _ hp hnp := by
    obtain ⟨f, hf, hact, hin⟩ := hp
    exact absurd ⟨f, hq' f hf, hact, hin⟩ hnp
  places := hplace

theorem Later.refl (q : List Fixup) (st : Dst) : Later x n sf ds gs k q q st st :=
  .quiet (fun _ hf _ => hf) (fun _ hf => hf) (fun _ => rfl) (fun _ _ => rfl)

theorem Later.trans (h : Later x n sf ds gs k q q' st st') (h' : Later x n sf ds gs k q' q'' st' st'') :
    Later x n sf ds gs k q q'' st st'' where
  queue f hf hact := h.queue f (h'.queue f hf hact) hact
  regs r off hr := by
    rcases h'.regs r off hr with h2 | h2
    · rcases h.regs r off hr with h1 | h1
      · exact .inl (h2.trans h1)
      · exact .inr (h1.same h2)
    · exact .inr (h2.sub h.queue)
  gone r off hr hp hnp := by
    by_cases hp' : Pending q' k r
    · exact (h'.gone r off hr hp' hnp).sub h.queue
    · have h1 := h.gone r off hr hp hp'
      rcases h'.regs r off hr with h2 | h2
      · exact h1.same h2
      · exact h2.sub h.queue
  places tg hloose := (h'.places tg hloose).trans (h.places tg hloose)

theorem Later.setFixups (h : Later x n sf ds gs k q q' st st') (fs : List Fixup) : Later x n sf ds gs k q q' st (st'.setFixups fs) := by
  apply h.trans
  apply Later.quiet (fun _ hf _ => hf) (fun _ hf => hf)
  · exact fun _ => rfl
  · exact fun tg _ => setFixups_read st' fs _ _

/-! ## Steps of the rewrite -/

section Steps
variable (hl : StackLayout x ds n) (hm : Matched x n sf ds gs) (hk0 : 0 < k) (hkn : k + 1 < n)

include hl hk0 hkn in
/-- A put to another frame's target, or to a live value's, is not seen. -/
theorem Wrote.loose {j : Nat} {tg tg' : Target} (hloose : Loose x n ds gs k tg) (hw : Wrote st st' (place x ds n j tg') tg'.len)
    (hj0 : 0 < j) (hj : j + 1 < n) (hfine : Fine x ds n j tg')
    (hne : k ≠ j ∨ ∃ c ∈ cellsOf (gs k), valTarget x ds n k c.2 = some tg') :
    st'.read (place x ds n k tg) tg.len = st.read (place x ds n k tg) tg.len := by
  obtain ⟨i, -, hspot⟩ := place_spot hl.bodies hk0 hkn hloose.1
  apply hw.other _ _ hspot.final
  apply place_disj hl hk0 hkn hj0 hj hloose.1 hfine
  rcases hne with hne | ⟨c, hc, htg'⟩
  · exact .inl hne
  · exact .inr (hloose.2 c hc tg' htg').symm

include hl hk0 hkn in
theorem Later.slot (q : List Fixup) (st : Dst) {j a : Nat} {bs : List UInt8} (hj : j + 1 < n)
    (h1 : destCfa x ds n j ≤ a + 16) (h2 : a + bs.length ≤ destCfa x ds n j) :
    Later x n sf ds gs k q q st (writeLoc st (.mem a) bs) := by
  apply Later.quiet (fun _ hf _ => hf) (fun _ hf => hf)
  · exact fun _ => rfl
  · intro tg hloose
    obtain ⟨i, hi, hspot⟩ := place_spot hl.bodies hk0 hkn hloose.1
    exact (wrote_mem st a bs).other _ _ hspot.final (slot_disj hl.fits (by omega) (by omega) h1 h2 hspot).symm

include hl hk0 hkn in
theorem Later.popped (q : List Fixup) {c : Ctx} (m' : Mem) (hact : k ≠ c.act + 1) :
    Later x n sf ds gs k q q ⟨c, m'⟩ ⟨popped m' c true, m'⟩ := by
  apply Later.quiet (fun _ hf _ => hf) (fun _ hf => hf)
  · intro off
    show load ((Popcorn.Runtime.popped m' c true).acts k).regs off 8 = load (c.acts k).regs off 8
    rw [popped_acts_ne _ _ _ hact]
  · intro tg hloose
    obtain ⟨i, hi, hspot⟩ := place_spot hl.bodies hk0 hkn hloose.1
    exact read_popped m' _ _ hspot.final

include hl hm hk0 hkn in
theorem Kept.resolve_later {pre fs : List Fixup} {f : Fixup} (hmn : m + 1 < n)
    (hk : Kept mem x n sf ds gs st0 m t (pre ++ f :: fs) st) {d : Nat} (hd : f.act = k → ResolvesTo x n sf ds gs k f.srcAddr d)
    (h : putValData st f.destLoc f.act d = .ok st') : Later x n sf ds gs k (pre ++ f :: fs) (pre ++ fs) st st' := by
  obtain ⟨i, v, hdone, hc, hp, -⟩ := hk.queue f (List.mem_append_right pre List.mem_cons_self)
  have hf0 : 0 < f.act := hdone.1
  have hle : f.act ≤ m := by
    unfold Done at hdone
    omega
  have hfn : f.act + 1 < n := by omega
  have hfine := hm.cell_fine hl.bodies hf0 hfn hc
  have hsize := hm.pointer_size hl hf0 hfn hc hp.1 hp.2.1
  have hops : st.ctx.regops = getRegops x.handleDest.arch := congrArg (fun h : Handle => getRegops h.arch) hk.frames.handle
  have hmem : f ∈ pre ++ f :: fs := List.mem_append_right pre List.mem_cons_self
  have hwritten : ∀ {r off}, (getRegops x.handleDest.arch).reg r = .ok off →
      (f.act = k ∧ InReg f.destLoc r ∧ Resolved x n sf ds gs k (pre ++ f :: fs) st' r off) ∨
        (¬ (f.act = k ∧ InReg f.destLoc r) ∧ st'.read (.reg k off) 8 = st.read (.reg k off) 8) := by
    intro r off hr
    rcases putValData_act hk0 h (hops ▸ hr) with ⟨hact, hreg, hread⟩ | hother
    · exact .inl ⟨hact, hreg, f, hmem, hact, hreg, d, hd hact, hread⟩
    · exact .inr hother
  constructor
  case queue =>
    intro g hg _
    simp only [List.mem_append, List.mem_cons] at hg ⊢
    exact hg.imp id .inr
  case regs =>
    intro r off hr
    rcases hwritten hr with ⟨-, -, hres⟩ | ⟨-, hread⟩
    · exact .inr hres
    · exact .inl hread
  case gone =>
    intro r off hr ⟨g, hg, hact, hreg⟩ hnp
    rcases hwritten hr with ⟨-, -, hres⟩ | ⟨hne, -⟩
    · exact hres
    · -- the register is another fixup's, which still waits
      refine absurd ⟨g, ?_, hact, hreg⟩ hnp
      simp only [List.mem_append, List.mem_cons] at hg ⊢
      rcases hg with hg | rfl | hg
      · exact .inl hg
      · exact absurd ⟨hact, hreg⟩ hne
      · exact .inr hg
  case places =>
    intro tg hloose
    rcases putValData_put hl hk.frames hf0 hle hfn hsize.1 hfine.1 hfine.2 h with ⟨-, rfl⟩ | ⟨tg', htg', hput⟩
    · rfl
    · apply hput.wrote.loose hl hk0 hkn hloose hf0 hfn (hfine.2 tg' htg')
      by_cases hkf : k = f.act
      · subst hkf
        exact .inr ⟨_, List.mem_of_getElem? hc, htg'⟩
      · exact .inl hkf

section Frame
variable (hs : SourceStack mem x n sf ds) {src : Ctx} (hsrc : SrcFrame x sf m src) (h0 : 0 < m) (hmn : m + 1 < n) {v w : LiveValue}

include hl hm hk0 hkn hmn in
theorem Later.fixupRule (hkm : k ≤ m) :
    FixupRule mem x n sf ds gs st0 m fun q st q' st' => Later x n sf ds gs k q q' st st' where
  refl := Later.refl
  trans h h' := h.trans h'
  setFixups q st fs := (Later.refl q st).setFixups fs
  resolve hk hinto h := by
    obtain ⟨c, hc, hmove, hskip⟩ := hinto
    exact hk.resolve_later hl hm hk0 hkn hmn (fun hfk => ⟨m, hkm, hmn, c, hc, hmove, hfk ▸ hskip⟩) h

include hl hm hk0 hkn hsrc h0 hmn in
/-- The rewrite of a frame further out resolves fixups of frame `k` and leaves it alone else. -/
theorem Later.frameRule (hkm : k < m) :
    FrameRule mem x n sf ds gs st0 m src fun q st q' st' => Later x n sf ds gs k q q' st st' where
  toFixupRule := Later.fixupRule hl hm hk0 hkn hmn (Nat.le_of_lt hkm)
  value hc hk hput := by
    have hfine := hm.cell_fine hl.bodies h0 hmn hc
    apply Later.quiet (fun _ hf _ => hf) (fun _ hf => hf)
    · intro off
      exact putVal_act hk0 hput (by rw [hsrc.act]; omega)
    · intro tg hloose
      rcases putVal_put hl hk.frames h0 (Nat.le_refl m) hmn hsrc.act hk.frames.act hfine.1 hfine.2 hput with
        ⟨-, rfl⟩ | ⟨tg', bs, htg', -, hput⟩
      · rfl
      · exact hput.wrote.loose hl hk0 hkn hloose h0 hmn (hfine.2 tg' htg') (.inl (Nat.ne_of_lt hkm))
  queued _ _ := by
    apply Later.quiet _ (fun f hf => List.mem_append_left _ hf) (fun _ => rfl) (fun _ _ => rfl)
    intro f hf hact
    rcases List.mem_append.mp hf with hf | hf
    · exact hf
    · rw [List.mem_singleton.mp hf] at hact
      exact absurd hact (Nat.ne_of_gt hkm)
  arch hi hv hk hput := by
    obtain ⟨haddr, hfine⟩ := (hl.frames m h0 hmn).arch _ hi _ hv
    apply Later.quiet (fun _ hf _ => hf) (fun _ hf => hf)
    · intro off
      exact putValArch_act hk0 hput (by rw [hk.frames.act]; omega)
    · intro tg hloose
      obtain ⟨tg', htg', hw⟩ := putValArch_wrote hl hk.frames h0 (Nat.le_refl m) hmn hk.frames.act haddr hfine hput
      exact hw.loose hl hk0 hkn hloose h0 hmn (hfine tg' htg') (.inl (Nat.ne_of_lt hkm))

include hl hm hk0 hkn hs hsrc h0 hmn in
/-- The rest of a frame once its arch-specific values are set. -/
theorem FrameRun.fixups_later (hkm : k ≤ m) {found b : Bool} {st1 st2 : Dst}
    (hrun : FrameRun mem x n sf ds gs m src found st b st1 st2 st')
    (hk : Kept mem x n sf ds gs st0 m 0 st.ctx.stackPointers st) :
    Later x n sf ds gs k st2.ctx.stackPointers st'.ctx.stackPointers st2 st' :=
  (Later.fixupRule hl hm hk0 hkn hmn hkm).last hl hm hs hsrc h0 hmn hrun hk

include hl hm hk0 hkn hs hsrc h0 hmn in
/-- A frame further out. -/
theorem FrameRun.later (hkm : k < m) {found b : Bool} {st1 st2 : Dst} (hrun : FrameRun mem x n sf ds gs m src found st b st1 st2 st')
    (hk : Kept mem x n sf ds gs st0 m 0 st.ctx.stackPointers st) (hset : Settled x sf gs m 0 st.ctx.stackPointers false) :
    Later x n sf ds gs k st.ctx.stackPointers st'.ctx.stackPointers st st' := by
  obtain ⟨hvals, harchs, hrest⟩ := (Later.frameRule hl hm hk0 hkn hsrc h0 hmn hkm).frame hl hm hs hsrc h0 hmn hrun hk hset
  exact hvals.trans (harchs.trans hrest)

include hl hk0 hkn h0 hmn in
/-- From a rewritten frame to the next one. -/
theorem StepRun.next_later (hkm : k ≤ m) {found : Bool} {st1 st2 : Dst} (hrun : StepRun mem x n sf ds gs m src found st st1 st2 st') :
    Later x n sf ds gs k st2.ctx.stackPointers st'.ctx.stackPointers st2 st' := by
  have hroom := destCfa_room hl.fits h0 (by omega) (hl.frames m h0 hmn)
  have hact : k ≠ st2.ctx.act + 1 := by
    rw [hrun.kept.frames.act]
    omega
  rw [hrun.last]
  show Later x n sf ds gs k st2.ctx.stackPointers (popped st2.mem st2.ctx true).stackPointers st2 _
  rw [popped_stackPointers]
  apply (Later.popped hl hk0 hkn st2.ctx.stackPointers st2.mem hact).trans
  exact Later.slot hl hk0 hkn _ _ hmn (by omega) (by rw [leBytes_length]; omega)

include hl hm hk0 hkn hs hsrc h0 hmn in
/-- A round of the rewrite for a frame further out. -/
theorem StepRun.later (hkm : k < m) {found : Bool} {st1 st2 : Dst} (hrun : StepRun mem x n sf ds gs m src found st st1 st2 st') :
    Later x n sf ds gs k st.ctx.stackPointers st'.ctx.stackPointers st st' := by
  have hroom := destCfa_room hl.fits h0 (by omega) (hl.frames m h0 hmn)
  obtain ⟨b, sta, stb, hframe⟩ := rewriteFrame_run hl hm hs hsrc h0 hmn hrun.entered hrun.settled hrun.frame
  have hfix1 : st1.ctx.stackPointers = st.ctx.stackPointers := by
    rw [hrun.slot]
    rfl
  have hra : Later x n sf ds gs k st.ctx.stackPointers st.ctx.stackPointers st st1 := by
    rw [hrun.slot]
    exact Later.slot hl hk0 hkn _ _ hmn (by omega) (by rw [leBytes_length]; omega)
  have hfr := hframe.later hl hm hk0 hkn hs hsrc h0 hmn hkm hrun.entered hrun.settled
  rw [hfix1] at hfr
  exact hra.trans (hfr.trans (hrun.next_later hl hk0 hkn h0 hmn (Nat.le_of_lt hkm)))

end Frame

end Steps

/-! ## Which fixups wait -/

/-- The queue when record `t` of frame `m` is next: the fixup of a pointer in a register waits,
    unless an alloca after its record took it; `needs` is `needs_local_fixup`. -/
structure Walked (mem : Mem) (x : RewriteArgs) (sf : Nat → VFrame) (gs : Nat → List (Group × Group)) (m t : Nat) (q : List Fixup)
    (needs : Bool) : Prop where
  waits : ∀ i v w addr, i < t → (cellsOf (gs m))[i]? = some (v, w) → VPoints mem x.handleSrc (sf m) v addr → IntoStack x sf addr →
    (sf (m - 1)).cfa ≤ addr → (∀ t' c, i < t' → t' < t → (cellsOf (gs m))[t']? = some c → skipVaList c.1 c.2 = false →
      ¬ VContains x.handleSrc (sf m) c.1 addr) → ⟨addr, m, w⟩ ∈ q
  taken : ∀ f ∈ q, f.act = m → ∃ i v, i < t ∧ (cellsOf (gs m))[i]? = some (v, f.destLoc) ∧
    VPoints mem x.handleSrc (sf m) v f.srcAddr ∧ ∀ t' c, i < t' → t' < t → (cellsOf (gs m))[t']? = some c →
      skipVaList c.1 c.2 = false → ¬ VContains x.handleSrc (sf m) c.1 f.srcAddr
  needs : ∀ f ∈ q, f.act = m → f.srcAddr < (sf m).cfa → needs = true

section Walk
variable (hl : StackLayout x ds n) (hm : Matched x n sf ds gs) (hs : SourceStack mem x n sf ds) {src : Ctx} (hsrc : SrcFrame x sf m src)
  (h0 : 0 < m) (hmn : m + 1 < n) {v w : LiveValue}

/-- A record that takes no fixup. -/
theorem Walked.skip {b : Bool} (h : Walked mem x sf gs m t q b) (hc : (cellsOf (gs m))[t]? = some (v, w))
    (hno : ∀ addr, VPoints mem x.handleSrc (sf m) v addr → IntoStack x sf addr → ¬ (sf (m - 1)).cfa ≤ addr)
    (hnone : v.isAlloca = true → skipVaList v w = true) : Walked mem x sf gs m (t + 1) q b where
  waits i v' w' addr hi hc' hp hin hle hfree := by
    rcases Nat.lt_or_eq_of_le (Nat.le_of_lt_succ hi) with hi | rfl
    · exact h.waits i v' w' addr hi hc' hp hin hle fun t' c h1 h2 => hfree t' c h1 (by omega)
    · cases hc.symm.trans hc'
      exact absurd hle (hno addr hp hin)
  taken f hf hact := by
    obtain ⟨i, v', hi, hc', hp, hfree⟩ := h.taken f hf hact
    refine ⟨i, v', by omega, hc', hp, ?_⟩
    intro t' c h1 h2 hct hskip hin
    rcases Nat.lt_or_eq_of_le (Nat.le_of_lt_succ h2) with h2 | rfl
    · exact hfree t' c h1 h2 hct hskip hin
    · cases hc.symm.trans hct
      rw [hnone hin.1] at hskip
      cases hskip
  needs := h.needs

/-- A pointer whose fixup is queued. -/
theorem Walked.append {b : Bool} {addr : Nat} (h : Walked mem x sf gs m t q b) (hc : (cellsOf (gs m))[t]? = some (v, w))
    (hp : VPoints mem x.handleSrc (sf m) v addr) :
    Walked mem x sf gs m (t + 1) (q ++ [⟨addr, m, w⟩]) (b || decide (addr < (sf m).cfa)) where
  waits i v' w' addr' hi hc' hp' hin hle hfree := by
    rcases Nat.lt_or_eq_of_le (Nat.le_of_lt_succ hi) with hi | rfl
    · exact List.mem_append_left _ (h.waits i v' w' addr' hi hc' hp' hin hle fun t' c h1 h2 => hfree t' c h1 (by omega))
    · cases hc.symm.trans hc'
      rw [hp'.eq hp]
      exact List.mem_append_right _ List.mem_cons_self
  taken f hf hact := by
    rcases List.mem_append.mp hf with hf | hf
    · obtain ⟨i, v', hi, hc', hp', hfree⟩ := h.taken f hf hact
      refine ⟨i, v', by omega, hc', hp', ?_⟩
      intro t' c h1 h2 hct hskip hin
      rcases Nat.lt_or_eq_of_le (Nat.le_of_lt_succ h2) with h2 | rfl
      · exact hfree t' c h1 h2 hct hskip hin
      · -- the record is a pointer, not an alloca
        cases hc.symm.trans hct
        have ha : v.isAlloca = true := hin.1
        rw [hp.2.1] at ha
        cases ha
    · obtain rfl := List.mem_singleton.mp hf
      exact ⟨t, v, Nat.lt_succ_self t, hc, hp, fun t' c h1 h2 => by omega⟩
  needs f hf hact hlt := by
    rcases List.mem_append.mp hf with hf | hf
    · rw [h.needs f hf hact hlt, Bool.true_or]
    · obtain rfl := List.mem_singleton.mp hf
      rw [decide_eq_true hlt, Bool.or_true]

/-- An alloca takes the fixups that point into it. -/
theorem Walked.take {b : Bool} (h : Walked mem x sf gs m t q b) (hc : (cellsOf (gs m))[t]? = some (v, w)) (ha : v.isAlloca = true)
    (hskip : skipVaList v w = false) (hq : ∀ f, f ∈ q' ↔ f ∈ q ∧ ¬ VContains x.handleSrc (sf m) v f.srcAddr) :
    Walked mem x sf gs m (t + 1) q' b where
  waits i v' w' addr hi hc' hp hin hle hfree := by
    rcases Nat.lt_or_eq_of_le (Nat.le_of_lt_succ hi) with hi | rfl
    · rw [hq]
      exact ⟨h.waits i v' w' addr hi hc' hp hin hle fun t' c h1 h2 => hfree t' c h1 (by omega),
        hfree t (v, w) hi (Nat.lt_succ_self t) hc hskip⟩
    · cases hc.symm.trans hc'
      rw [hp.2.1] at ha
      cases ha
  taken f hf hact := by
    obtain ⟨hf, hout⟩ := (hq f).mp hf
    obtain ⟨i, v', hi, hc', hp, hfree⟩ := h.taken f hf hact
    refine ⟨i, v', by omega, hc', hp, ?_⟩
    intro t' c h1 h2 hct hskip' hin
    rcases Nat.lt_or_eq_of_le (Nat.le_of_lt_succ h2) with h2 | rfl
    · exact hfree t' c h1 h2 hct hskip' hin
    · cases hc.symm.trans hct
      exact hout hin
  needs f hf hact := h.needs f ((hq f).mp hf).1 hact

include hl hm hs hsrc h0 hmn in
theorem rewriteVal_walked {i : Nat} {b b' : Bool} (hi : x.handleSrc.liveVals i = v) (hc : (cellsOf (gs m))[t]? = some (v, w))
    (hk : Kept mem x n sf ds gs st0 m t st.ctx.stackPointers st) (hset : Settled x sf gs m t st.ctx.stackPointers b)
    (hw : Walked mem x sf gs m t st.ctx.stackPointers b) (h : rewriteVal src i st w = .ok (b', st')) :
    Walked mem x sf gs m (t + 1) st'.ctx.stackPointers (b || b') := by
  unfold rewriteVal at h
  rw [hsrc.handle, hi] at h
  dsimp only at h
  split at h
  · rename_i hskip
    obtain ⟨rfl, rfl⟩ := Prod.mk.inj (Except.ok.inj h)
    rw [Bool.or_false]
    apply hw.skip hc
    · intro addr hp
      rw [not_skip_of_not_alloca hp.2.1] at hskip
      cases hskip
    · exact fun _ => hskip
  · rename_i hskip
    rw [Bool.not_eq_true] at hskip
    obtain ⟨⟨b1, st1⟩, h1, h⟩ := bind_ok.mp h
    have hk1 := (fixupOrPut_kept hl hm hsrc h0 hmn hi hc hskip hk hset h1).1
    by_cases ha : v.isAlloca = true
    · -- an alloca is put
      rw [if_pos ha] at h
      obtain ⟨⟨kept, st2⟩, h2, h⟩ := bind_ok.mp h
      obtain ⟨rfl, rfl⟩ := Prod.mk.inj (Except.ok.inj h)
      have hno : ∀ addr, ¬ VPoints mem x.handleSrc (sf m) v addr := by
        intro addr hp
        rw [hp.2.1] at ha
        cases ha
      have hput : b1 = false ∧ st1.ctx.stackPointers = st.ctx.stackPointers := by
        rcases fixupOrPut_cases hl hm hsrc h0 hmn hi hc hk h1 with ⟨addr, hp, -⟩ | ⟨-, ⟨addr, hp, -⟩, -⟩ | ⟨hb, hout, hput⟩
        · exact absurd hp (hno addr)
        · exact absurd hp (hno addr)
        · exact ⟨hb, (putVal_kept hl hm hsrc h0 hmn hi hc hskip hout hk hput).2⟩
      have hk1' : Kept mem x n sf ds gs st0 m (t + 1) ([] ++ st1.ctx.stackPointers) st1 := hk1
      obtain ⟨-, -, hrest⟩ := resolveFixups_kept hl hm hs hsrc h0 hmn hc ha _ hk1' h2
      rw [hput.2] at hrest
      rw [hput.1, Bool.or_false]
      exact hw.take hc ha hskip hrest
    · rw [if_neg ha] at h
      obtain ⟨rfl, rfl⟩ := Prod.mk.inj (Except.ok.inj h)
      have hnone : v.isAlloca = true → skipVaList v w = true := fun e => absurd e ha
      rcases fixupOrPut_cases hl hm hsrc h0 hmn hi hc hk h1 with ⟨addr, hp, -, -, rfl, rfl⟩ | ⟨rfl, ⟨addr, hp, -, hlt⟩, rfl⟩ | ⟨rfl, hout, hput⟩
      · exact hw.append hc hp
      · rw [Bool.or_false]
        apply hw.skip hc _ hnone
        intro addr' hp' _
        rw [hp'.eq hp]
        omega
      · rw [Bool.or_false, (putVal_kept hl hm hsrc h0 hmn hi hc hskip hout hk hput).2]
        exact hw.skip hc (fun addr hp hin => absurd hin (hout addr hp)) hnone

include hl hm hs hsrc h0 hmn in
/-- The queue after a frame's values, where it held fixups of inner frames only. -/
theorem FrameRun.walked {found b : Bool} {st1 st2 : Dst} (hrun : FrameRun mem x n sf ds gs m src found st b st1 st2 st')
    (hk : Kept mem x n sf ds gs st0 m 0 st.ctx.stackPointers st) (hset : Settled x sf gs m 0 st.ctx.stackPointers false) :
    Walked mem x sf gs m (cellsOf (gs m)).length st1.ctx.stackPointers b := by
  have hinner : ∀ f ∈ st.ctx.stackPointers, f.act ≠ m := by
    intro f hf hact
    obtain ⟨i, v, hdone, -⟩ := hk.queue f hf
    unfold Done at hdone
    omega
  refine (rewriteGroups_rule hl hm hs hsrc h0 hmn (P := fun t b s => Walked mem x sf gs m t s.ctx.stackPointers b) ?_ hk hset ?_
    hrun.groups).2.2
  · intro t i v w b b' s s' hi hc hks hsets hw h
    exact rewriteVal_walked hl hm hs hsrc h0 hmn hi hc hks hsets hw h
  · constructor
    · intro i v w addr hi
      omega
    · exact fun f hf hact => absurd hact (hinner f hf)
    · exact fun f hf hact => absurd hact (hinner f hf)

end Walk

end

end Popcorn.Runtime
