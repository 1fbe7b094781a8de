/-
  Popcorn.Runtime.ArchFinal — the operands of architecture-specific values.

  `rewrite_frame` sets the arch-specific values of a frame between two phases: after its
  live values are copied, but before `fixup_local_pointers` and before the outer frames
  resolve the frame's other fixups. A list of instructions whose operand is a live value in
  a register reads the register as it is then. If the live value points into the stack and
  its fixup still waits, the register holds what it held when the frame was entered
  (`Late`), and the value is not computed again when the pointer is written.

  Proved:
  - `GenValue.phase`: after the frame's arch-specific phase each value is that of its list
    on the registers of the activation.
  - `Evaluates.later`: it stays so while no fixup of an operand is resolved.
  - `arch_values_final`: at the end it is that of its list on the final registers, if no
    operand is late and no stale bit hides a place.
-/

import Popcorn.Runtime.Agreement
import Popcorn.Runtime.Later

namespace Popcorn.Runtime

open Popcorn.Lib Popcorn.Metadata

/-! ## Values and their lists -/

/-- The place a generated value belongs in, as a live value record of 8 bytes. -/
def GenDest.record (d : GenDest) : LiveValue := ⟨false, false, false, false, d.type, 8, d.regnum, Int32.ofInt d.offset.toNat, 0⟩

/-- The list has an instruction with the register as an operand, or as the base of one. -/
def Reads (rs : List ArchLiveValue) (q : UInt16) : Prop := ∃ r ∈ rs, ∃ o, recordOperand r = some o ∧ q ∈ o.reg?

/-- A live value of frame `k` is in the register. -/
def InLive (gs : Nat → List (Group × Group)) (k : Nat) (q : UInt16) : Prop := ∃ c ∈ cellsOf (gs k), InReg c.2 q

/-- The register is the place the value is generated in. -/
def GenDest.Own (d : GenDest) (q : UInt16) : Prop := LocationType.ofCode d.type = some .register ∧ q = d.regnum

section Def
variable (mem : Mem) (x : RewriteArgs) (n : Nat) (sf : Nat → VFrame) (ds : Nat → CallSite) (gs : Nat → List (Group × Group))

/-- The records from number `i` of frame `k` on are the list of an arch-specific value: they
    generate it for `d`, and no other record of the frame writes there. The list starts by setting
    the value, and reads live values and the frame's bases. -/
structure GenValue (k : Nat) (d : GenDest) (i : Nat) (rs : List ArchLiveValue) : Prop where
  inside : i + rs.length ≤ (ds k).numArchLive.toNat
  records : ∀ t r, rs[t]? = some r → destArch x ds k (i + t) = some r
  type : LocationType.ofCode d.type = some .register ∨ LocationType.ofCode d.type = some .indirect
  dest : ∀ r ∈ rs, r.type = d.type ∧ r.regnum = d.regnum ∧ r.offset = d.offset
  apart : ∀ j < (ds k).numArchLive.toNat, j < i ∨ i + rs.length ≤ j → ∀ v ∈ destArch x ds k j,
    ∀ a ∈ valTarget x ds n k d.record, ∀ b ∈ archTarget x ds n k v, a.Disj b
  first : ∃ r rest o, rs = r :: rest ∧ instOfCode r.instType = some .set ∧ recordOperand r = some o ∧ ∀ q ∈ o.reg?, ¬ d.Own q
  operands : ∀ q, Reads rs q → d.Own q ∨ q = spReg x.handleDest.arch ∨ q = fbpReg x.handleDest.arch ∨ InLive gs k q
  /-- One of its operands is a live value in a register. -/
  live : ∃ r ∈ rs, ∃ q, recordOperand r = some (.register q) ∧ InLive gs k q

/-- The operand is a pointer into the stack whose fixup is resolved after the arch-specific values
    are set: no alloca recorded after it in the frame takes it, but one of the frame or of an outer
    one does. -/
def Late (k : Nat) (q : UInt16) : Prop :=
  ∃ t v w addr d, (cellsOf (gs k))[t]? = some (v, w) ∧ InReg w q ∧ VPoints mem x.handleSrc (sf k) v addr ∧ IntoStack x sf addr ∧
    ResolvesTo x n sf ds gs k addr d ∧ ∀ (t' : Nat) (c : LiveValue × LiveValue), t < t' → (cellsOf (gs k))[t']? = some c → skipVaList c.1 c.2 = false →
      ¬ VContains x.handleSrc (sf k) c.1 addr

/-- The 64-bit value of a register in a frame of the result. -/
def vreg (f : VFrame) (q : UInt16) : UInt64 := UInt64.ofNat (rget f.regs (regOff x.handleDest.arch q))

/-- In the result the value is that of its instructions, as the runtime carries them out, on the
    registers its frame then has. -/
def ArchValueFinal (out : Rewritten) (k : Nat) (d : GenDest) (rs : List ArchLiveValue) : Prop :=
  ∃ df, Unwinds out.mem x.handleDest out.regs n df ∧ ∃ w, runRecords d (vreg x (df k)) 0 rs = some w ∧
    vread out.mem x.handleDest (df k) d.record 8 = some (leBytes 8 w.toNat)

/-- The operands of the value are final when they are read, and its place and theirs are found. -/
structure OperandsFinal (k : Nat) (d : GenDest) (rs : List ArchLiveValue) : Prop where
  dest : LocationType.ofCode d.type = some .register → NoStaleBit x ds n k d.regnum
  clean : ∀ q, Reads rs q → InLive gs k q → NoStaleBit x ds n k q
  early : ∀ q, Reads rs q → InLive gs k q → ¬ Late mem x n sf ds gs k q

end Def

/-! ## The runtime's operations on words -/

section Words
variable {d : GenDest} {ρ ρ' : UInt16 → UInt64} {rs : List ArchLiveValue}

theorem GenOperand.cut_congr {o : GenOperand} (h : ∀ q ∈ o.reg?, ρ q = ρ' q) : o.cut ρ = o.cut ρ' := by
  cases o with
  | register q => exact h q rfl
  | direct q offset => exact congrArg (fun v : UInt64 => UInt64.ofNat (padd v.toNat (Int32.ofInt offset.toInt).toInt)) (h q rfl)
  | immediate value => rfl

/-- An instruction sees only the registers it reads. -/
theorem runRecord_congr {v : UInt64} {r : ArchLiveValue} (h : ∀ o, recordOperand r = some o → ∀ q ∈ o.reg?, ¬ d.Own q → ρ q = ρ' q) :
    runRecord d ρ v r = runRecord d ρ' v r := by
  unfold runRecord
  cases ho : recordOperand r with
  | none => rfl
  | some o =>
    have hregs : ∀ q ∈ o.reg?, d.regs ρ v q = d.regs ρ' v q := by
      intro q hq
      unfold GenDest.regs
      split
      · rfl
      · rename_i hown
        exact h o ho q hq hown
    show (instOfCode r.instType >>= fun inst => runtimeValue inst v (o.cut (d.regs ρ v))) = _
    rw [GenOperand.cut_congr hregs]
    rfl

theorem runRecords_congr (h : ∀ q, Reads rs q → ¬ d.Own q → ρ q = ρ' q) (v : UInt64) : runRecords d ρ v rs = runRecords d ρ' v rs := by
  unfold runRecords
  induction rs generalizing v with
  | nil => rfl
  | cons r rs ih =>
    have hrec : runRecord d ρ v r = runRecord d ρ' v r :=
      runRecord_congr fun o ho q hq => h q ⟨r, List.mem_cons_self, o, ho, hq⟩
    have hrest := ih fun q hq => h q (by
      obtain ⟨r', hr', hq⟩ := hq
      exact ⟨r', List.mem_cons_of_mem r hr', hq⟩)
    rw [List.foldlM_cons, List.foldlM_cons, hrec]
    exact congrArg (runRecord d ρ' v r >>= ·) (funext hrest)

/-- A list that starts by setting the value does not depend on what was there. -/
theorem runRecords_set {r : ArchLiveValue} {o : GenOperand} (hset : instOfCode r.instType = some .set) (ho : recordOperand r = some o)
    (hown : ∀ q ∈ o.reg?, ¬ d.Own q) (v v' : UInt64) : runRecords d ρ v (r :: rs) = runRecords d ρ v' (r :: rs) := by
  have hregs : ∀ q ∈ o.reg?, d.regs ρ v q = d.regs ρ v' q := by
    intro q hq
    have hno : ¬ (LocationType.ofCode d.type = some .register ∧ q = d.regnum) := hown q hq
    unfold GenDest.regs
    rw [if_neg hno, if_neg hno]
  have hrec : ∀ v, runRecord d ρ v r = some (o.cut (d.regs ρ v)) := by
    intro v
    unfold runRecord
    rw [hset, ho]
    rfl
  unfold runRecords
  rw [List.foldlM_cons, List.foldlM_cons, hrec, hrec, GenOperand.cut_congr hregs]

/-- What a record that was carried out has: an instruction and an operand. -/
theorem putValArch_defined {st st' : Dst} {r : ArchLiveValue} (h : putValArch st r = .ok st') :
    ∃ inst o, instOfCode r.instType = some inst ∧ recordOperand r = some o := by
  unfold putValArch at h
  obtain ⟨l, -, h⟩ := bind_ok.mp h
  obtain ⟨s, -, h⟩ := bind_ok.mp h
  obtain ⟨operand, hop, h⟩ := bind_ok.mp h
  obtain ⟨value, hval, -⟩ := bind_ok.mp h
  have hinst : ∃ inst, instOfCode r.instType = some inst := by
    generalize r.instType = code at hval ⊢
    unfold archOperation at hval
    dsimp only at hval
    split at hval
    case h_10 => cases hval
    all_goals exact ⟨_, rfl⟩
  obtain ⟨inst, hinst⟩ := hinst
  have hoperand : ∃ o, recordOperand r = some o := by
    unfold getArchOperandLoc at hop
    unfold recordOperand
    split at hop
    · rename_i hc
      rw [hc]
      exact ⟨_, rfl⟩
    · obtain ⟨loc, -, hop⟩ := bind_ok.mp hop
      split at hop
      · rename_i ht
        rw [ht]
        exact ⟨_, rfl⟩
      · rename_i ht
        rw [ht]
        exact ⟨_, rfl⟩
      · cases hop
  obtain ⟨o, ho⟩ := hoperand
  exact ⟨inst, o, hinst, ho⟩

end Words

section
variable {mem : Mem} {x : RewriteArgs} {n : Nat} {sf : Nat → VFrame} {ds : Nat → CallSite} {gs : Nat → List (Group × Group)}
  {st0 st st' : Dst} {m t k i : Nat} {q : List Fixup} {d : GenDest} {rs : List ArchLiveValue}

/-! ## One list -/

/-- The value of a register of activation `k`. -/
def actReg (x : RewriteArgs) (st : Dst) (k : Nat) (q : UInt16) : UInt64 :=
  UInt64.ofNat (leVal (st.read (.reg k (regOff x.handleDest.arch q)) 8))

theorem regValue_act (hd : DestFrames x n ds k st.ctx) : regValue st.ctx = actReg x st k := by
  funext q
  unfold regValue Ctx.cur
  rw [hd.handle, hd.act]
  rfl

/-- The frame's records with these numbers, one after the other. -/
theorem rewriteArchVals_records : ∀ {i : Nat} {st : Dst}, st.ctx.handle = x.handleDest →
    (∀ t r, rs[t]? = some r → destArch x ds k (i + t) = some r) →
    (List.range' ((ds k).archLiveOffset + i) rs.length).foldlM rewriteArchVal st = rs.foldlM putValArch st := by
  induction rs with
  | nil => exact fun _ _ => rfl
  | cons r rs ih =>
    intro i st hh hrec
    have hfirst : rewriteArchVal st ((ds k).archLiveOffset + i) = putValArch st r := by
      unfold rewriteArchVal
      rw [hh, show x.handleDest.archLiveVals[(ds k).archLiveOffset + i]? = some r from hrec 0 r rfl]
    rw [List.length_cons, List.range'_succ, List.foldlM_cons, List.foldlM_cons, hfirst]
    cases hput : putValArch st r with
    | error e => rfl
    | ok s =>
      obtain ⟨l, c, bs, rfl⟩ := putValArch_cases hput
      refine ih (i := i + 1) ((writeBoth_same st l c bs).handle.trans hh) ?_
      intro t r' hr'
      rw [Nat.add_assoc, Nat.add_comm 1 t]
      exact hrec (t + 1) r' hr'

/-- After its records a value's place and its register hold the same. -/
theorem records_saved {l : Loc} {s : Option Loc} (hg : Generates st.ctx d l s rs) (h : rs.foldlM putValArch st = .ok st')
    (hne : 0 < rs.length) : ∀ l' ∈ s, st'.read l' 8 = st'.read l 8 := by
  have hrun : SameGen d st.ctx st'.ctx ∧ (0 < rs.length → ∀ l' ∈ s, st'.read l' 8 = st'.read l 8) := by
    refine foldlM_index (P := fun i s' => SameGen d st.ctx s'.ctx ∧ (0 < i → ∀ l' ∈ s, s'.read l' 8 = s'.read l 8)) ?_
      ⟨SameGen.refl d st.ctx, fun h0 => absurd h0 (Nat.lt_irrefl 0)⟩ h
    intro i r s1 s2 hr hp hput
    obtain ⟨hsame, hread⟩ := putValArch_sameGen hg hp.1 (List.mem_of_getElem? hr) hput
    exact ⟨hsame, fun _ => hread⟩
  exact hrun.2 hne

section Frame
variable (hl : StackLayout x ds n) (hm : Matched x n sf ds gs) (h0 : 0 < k) (hk : k + 1 < n) (hgv : GenValue x n ds gs k d i rs)

include hm hl h0 hk in
theorem InLive.fine {q : UInt16} (h : InLive gs k q) : Fine x ds n k (.reg q) := by
  obtain ⟨c, hc, ht, rfl⟩ := h
  obtain ⟨i, hi⟩ := List.mem_iff_getElem?.mp hc
  apply (hm.cell_fine hl.bodies h0 hk hi).2
  unfold valTarget target
  rw [ht]
  rfl

include hgv in
theorem GenValue.target {r : ArchLiveValue} (hr : r ∈ rs) : archTarget x ds n k r = valTarget x ds n k d.record := by
  obtain ⟨h1, h2, h3⟩ := hgv.dest r hr
  unfold archTarget
  rw [h1, h2, h3]
  rfl

include hgv in
theorem GenValue.pos : 0 < rs.length := by
  obtain ⟨r, rest, o, rfl, -⟩ := hgv.first
  exact Nat.succ_pos _

include hl h0 hk hgv in
/-- What the metadata says of the value's place. -/
theorem GenValue.fine : Addressable x d.type d.regnum 8 ∧ ∀ tg ∈ valTarget x ds n k d.record, Fine x ds n k tg := by
  obtain ⟨r, rest, o, hrs, -⟩ := hgv.first
  have hr : r ∈ rs := by
    rw [hrs]
    exact List.mem_cons_self
  have hrec := hgv.records 0 r (by rw [hrs]; rfl)
  have hpos := hgv.pos
  have hin := hgv.inside
  obtain ⟨haddr, hfine⟩ := (hl.frames k h0 hk).arch _ (by omega) r hrec
  obtain ⟨h1, h2, -⟩ := hgv.dest r hr
  rw [h1, h2] at haddr
  rw [hgv.target hr] at hfine
  exact ⟨haddr, hfine⟩

include hl h0 hk hgv in
/-- A live value of the frame is apart from the value's place. -/
theorem GenValue.apart_live {c : LiveValue × LiveValue} (hm : Matched x n sf ds gs) (hc : c ∈ cellsOf (gs k)) {a b : Target}
    (ha : valTarget x ds n k c.2 = some a) (hb : valTarget x ds n k d.record = some b) : a.Disj b := by
  obtain ⟨r, rest, o, hrs, -⟩ := hgv.first
  have hr : r ∈ rs := by
    rw [hrs]
    exact List.mem_cons_self
  have hrec := hgv.records 0 r (by rw [hrs]; rfl)
  have hpos := hgv.pos
  have hin := hgv.inside
  obtain ⟨t, ht⟩ := List.mem_iff_getElem?.mp hc
  obtain ⟨hlt, he⟩ := hm.cell h0 hk ht
  rw [← hgv.target hr] at hb
  exact (hl.frames k h0 hk).apartArch t hlt _ (by omega) a (by rw [he]; exact ha) r hrec b hb

include hl hm h0 hk hgv in
/-- The runtime carries out a list in the frame as `Generates` describes. -/
theorem GenValue.generates (hd : DestFrames x n ds k st.ctx) (h : rs.foldlM putValArch st = .ok st') :
    ∃ l s, Generates st.ctx d l s rs := by
  have hops : st.ctx.regops = getRegops x.handleDest.arch := congrArg (fun h : Handle => getRegops h.arch) hd.handle
  obtain ⟨r, rest, o, hrs, -⟩ := hgv.first
  have hr : r ∈ rs := by
    rw [hrs]
    exact List.mem_cons_self
  obtain ⟨htype, hreg, hoffset⟩ := hgv.dest r hr
  rw [hrs, List.foldlM_cons] at h
  obtain ⟨st1, hput, -⟩ := bind_ok.mp h
  unfold putValArch at hput
  rw [htype, hreg, hoffset] at hput
  obtain ⟨l, hloc, hput⟩ := bind_ok.mp hput
  obtain ⟨s, hsaved, -⟩ := bind_ok.mp hput
  refine ⟨l, s, hgv.type, hloc, hsaved, hgv.dest, ?_⟩
  intro r hr o ho q hq
  obtain hown | rfl | rfl | hlive := hgv.operands q ⟨r, hr, o, ho, hq⟩
  · obtain ⟨-, off, hoff, -⟩ | ⟨hind, -⟩ := loc_cases hgv.type hloc
    · exact ⟨off, hown.2 ▸ hoff⟩
    · obtain ⟨ht, -⟩ := hown
      rw [hind] at ht
      cases ht
  · rw [hops]
    exact ⟨_, reg_sp _⟩
  · rw [hops]
    exact ⟨_, reg_fbp _⟩
  · rw [hops]
    exact ⟨_, (calleeSaved_cases (hlive.fine hl hm h0 hk).1.calleeSaved).1⟩

include hl hm h0 hk hgv in
/-- After its records the value's place holds that of the list on the registers of the frame. -/
theorem GenValue.run (hd : DestFrames x n ds k st.ctx) (hns : LocationType.ofCode d.type = some .register → NoStaleBit x ds n k d.regnum)
    (h : rs.foldlM putValArch st = .ok st') : ∃ w, runRecords d (actReg x st k) 0 rs = some w ∧
      ∀ tg ∈ valTarget x ds n k d.record, st'.read (place x ds n k tg) 8 = leBytes 8 w.toNat := by
  obtain ⟨l, s, hg⟩ := hgv.generates hl hm h0 hk hd h
  have hsaved := records_saved hg h hgv.pos
  have hread := read_leBytes st' l
  have hrun := (records_run_iff hg (fun r hr => by
    obtain ⟨s1, s2, hput⟩ := foldlM_each h r hr
    exact putValArch_defined hput)).mp ⟨st', h, hread⟩
  rw [regValue_act hd] at hrun
  obtain ⟨haddr, hfine⟩ := hgv.fine hl h0 hk
  refine ⟨UInt64.ofNat (leVal (st'.read l 8)), ?_, ?_⟩
  · obtain ⟨r, rest, o, rfl, hset, ho, hown⟩ := hgv.first
    rw [← hrun]
    exact runRecords_set hset ho hown 0 _
  · intro tg htg
    have hloc := hg.loc
    have hcallee := hg.saved
    unfold GenDest.loc at hloc
    unfold GenDest.saved at hcallee
    rw [hd.act] at hloc hcallee
    have hlocs := (finds_of hd h0 (Nat.le_refl k) htg haddr (hfine tg htg) hloc hcallee).locs hl hd (Nat.le_refl k) hk
    rw [← hread]
    cases hlocs with
    | found r ho hns => exact hsaved _ rfl
    | hidden r ho hstale =>
      obtain ⟨ht, rfl⟩ := valTarget_reg htg
      exact absurd (hns ht) hstale
    | mem a len => rfl

/-! ## The arch-specific phase -/

/-- The value's place holds that of its list on the registers of its activation. -/
def Evaluates (x : RewriteArgs) (ds : Nat → CallSite) (n k : Nat) (d : GenDest) (rs : List ArchLiveValue) (st : Dst) : Prop :=
  ∃ w, runRecords d (actReg x st k) 0 rs = some w ∧
    ∀ tg ∈ valTarget x ds n k d.record, st.read (place x ds n k tg) 8 = leBytes 8 w.toNat

/-- A put to another target of the frame does not change the register of its activation. -/
theorem Locs.read_act {tg : Target} {dest : Loc} {callee : Option Loc} (hlocs : Locs x ds n k tg dest callee) (h0 : 0 < k)
    {q : UInt16} (hq : Ordinary x q) (hne : (Target.reg q).Disj tg) {bs : List UInt8} (hbs : bs.length ≤ tg.len) :
    (writeBoth st dest callee bs).read (.reg k (regOff x.handleDest.arch q)) 8 = st.read (.reg k (regOff x.handleDest.arch q)) 8 := by
  have hreg : ∀ r, Ordinary x r → q ≠ r → (Loc.reg k (regOff x.handleDest.arch q)).Disj 8 (.reg k (regOff x.handleDest.arch r)) 8 :=
    fun r hr hqr => .inr (reg_disj (calleeSaved_cases hq.calleeSaved).1 (calleeSaved_cases hr.calleeSaved).1 hqr)
  cases hlocs with
  | found r hr hns =>
    refine (read_writeLoc_disj _ ?_).trans (read_writeLoc_disj st ((hreg r hr hne).mono hbs))
    exact (savedPlace_final x ds n r k).disj_act h0 _ _ _
  | hidden r hr hstale => exact read_writeLoc_disj st ((hreg r hr hne).mono hbs)
  | mem a len => exact read_writeLoc_disj st trivial

include hl hm h0 hk in
/-- The arch-specific records leave the live values in registers alone. -/
theorem InLive.archs {q' : UInt16} (hlive : InLive gs k q') {a len : Nat} (hlen : a + len ≤ (ds k).numArchLive.toNat)
    (hkept : Kept mem x n sf ds gs st0 k t q st)
    (h : (List.range' ((ds k).archLiveOffset + a) len).foldlM rewriteArchVal st = .ok st') :
    st'.read (.reg k (regOff x.handleDest.arch q')) 8 = st.read (.reg k (regOff x.handleDest.arch q')) 8 := by
  have hfine := hlive.fine hl hm h0 hk
  obtain ⟨c, hc, ht, rfl⟩ := hlive
  obtain ⟨j, hj⟩ := List.mem_iff_getElem?.mp hc
  obtain ⟨hjlt, hje⟩ := hm.cell h0 hk hj
  have htg : valTarget x ds n k (destLive x ds k j) = some (.reg c.2.regnum) := by
    unfold valTarget target
    rw [hje, ht]
  refine (rewriteArchVals_rule (P := fun s => s.read _ 8 = st.read _ 8) hl hm h0 hk hlen ?_ hkept rfl h).2
  intro i v s s' _ hi hv hks hread hput
  obtain ⟨haddr, hfine'⟩ := (hl.frames k h0 hk).arch i (by omega) v hv
  obtain ⟨tg, bs, dest, callee, htg', hbs, hlocs, rfl⟩ := putValArch_locs hl hks.frames h0 (Nat.le_refl k) hk hks.frames.act haddr hfine' hput
  have hdisj := (hl.frames k h0 hk).apartArch j hjlt i (by omega) _ htg v hv tg htg'
  exact (hlocs.read_act h0 hfine.1 hdisj hbs).trans hread

include hl hm h0 hk in
/-- Records for other places leave a target's place alone. -/
theorem archs_place {tg : Target} (hfine : Fine x ds n k tg) {a len : Nat} (hlen : a + len ≤ (ds k).numArchLive.toNat)
    (hapart : ∀ j, a ≤ j → j < a + len → ∀ v ∈ destArch x ds k j, ∀ b ∈ archTarget x ds n k v, tg.Disj b)
    (hkept : Kept mem x n sf ds gs st0 k t q st)
    (h : (List.range' ((ds k).archLiveOffset + a) len).foldlM rewriteArchVal st = .ok st') :
    st'.read (place x ds n k tg) tg.len = st.read (place x ds n k tg) tg.len := by
  obtain ⟨_, -, hspot⟩ := place_spot hl.bodies h0 hk hfine
  refine (rewriteArchVals_rule (P := fun s => s.read _ tg.len = st.read _ tg.len) hl hm h0 hk hlen ?_ hkept rfl h).2
  intro i v s s' hle hlt hv hks hread hput
  obtain ⟨haddr, hfine'⟩ := (hl.frames k h0 hk).arch i (by omega) v hv
  obtain ⟨tg', htg', hw⟩ := putValArch_wrote hl hks.frames h0 (Nat.le_refl k) hk hks.frames.act haddr hfine' hput
  refine (hw.other _ _ hspot.final ?_).trans hread
  exact place_disj hl h0 hk h0 hk hfine (hfine' tg' htg') (.inr (hapart i hle hlt v hv tg' htg'))

/-- The bases of a frame are in its registers. -/
theorem DestFrames.actReg (hd : DestFrames x n ds m st.ctx) (h0 : 0 < k) (hkm : k ≤ m) {q : UInt16}
    (hq : q = spReg x.handleDest.arch ∨ q = fbpReg x.handleDest.arch) : actReg x st k q = UInt64.ofNat (baseOf x ds n k q) := by
  have hops : st.ctx.regops = getRegops x.handleDest.arch := congrArg (fun h : Handle => getRegops h.arch) hd.handle
  have hreg : ∃ off, (getRegops x.handleDest.arch).reg q = .ok off := by
    obtain rfl | rfl := hq
    · exact ⟨_, reg_sp _⟩
    · exact ⟨_, reg_fbp _⟩
  obtain ⟨off, hoff⟩ := hreg
  have hbase := hd.base h0 hkm hq (hops ▸ hoff)
  unfold Popcorn.Runtime.actReg
  rw [regOff_eq hoff, ← hbase]
  rfl

include hgv in
/-- Two states with the same bases and live values in a frame's registers give a list the same value. -/
theorem GenValue.congr {ρ ρ' : UInt16 → UInt64}
    (hbase : ∀ q, q = spReg x.handleDest.arch ∨ q = fbpReg x.handleDest.arch → ρ q = ρ' q)
    (hlive : ∀ q, Reads rs q → InLive gs k q → ρ q = ρ' q) : runRecords d ρ 0 rs = runRecords d ρ' 0 rs := by
  apply runRecords_congr
  intro q hreads hown
  obtain h | h | h | h := hgv.operands q hreads
  · exact absurd h hown
  · exact hbase q (.inl h)
  · exact hbase q (.inr h)
  · exact hlive q hreads h

include hl hm h0 hk hgv in
/-- After the arch-specific phase of its frame a value is that of its list. -/
theorem GenValue.phase (hns : LocationType.ofCode d.type = some .register → NoStaleBit x ds n k d.regnum)
    (hkept : Kept mem x n sf ds gs st0 k t q st)
    (h : (List.range' (ds k).archLiveOffset (ds k).numArchLive.toNat).foldlM rewriteArchVal st = .ok st') :
    Evaluates x ds n k d rs st' := by
  obtain ⟨rem, hrem⟩ := Nat.exists_eq_add_of_le hgv.inside
  -- the records before the list, the list, and the records after it
  have hsplit : List.range' (ds k).archLiveOffset (ds k).numArchLive.toNat = List.range' ((ds k).archLiveOffset + 0) i ++
      (List.range' ((ds k).archLiveOffset + i) rs.length ++ List.range' ((ds k).archLiveOffset + (i + rs.length)) rem) := by
    rw [← Nat.add_assoc (ds k).archLiveOffset i, List.range'_append_1, Nat.add_zero, List.range'_append_1, ← Nat.add_assoc, ← hrem]
  rw [hsplit, List.foldlM_append] at h
  obtain ⟨sa, ha, h⟩ := bind_ok.mp h
  rw [List.foldlM_append] at h
  obtain ⟨sb, hb, hc⟩ := bind_ok.mp h
  have htrivial : ∀ {a len s s'}, a + len ≤ (ds k).numArchLive.toNat → Kept mem x n sf ds gs st0 k t q s →
      (List.range' ((ds k).archLiveOffset + a) len).foldlM rewriteArchVal s = .ok s' → Kept mem x n sf ds gs st0 k t q s' :=
    fun hlen hks h => (rewriteArchVals_rule (P := fun _ => True) hl hm h0 hk hlen (fun _ _ _ _ _ _ => trivial) hks trivial h).1
  have hka := htrivial (by omega) hkept ha
  have hkb := htrivial (by omega) hka hb
  have hkc := htrivial (by omega) hkb hc
  have hrun := hb
  rw [rewriteArchVals_records hka.frames.handle hgv.records] at hrun
  obtain ⟨w, hw, hplace⟩ := hgv.run hl hm h0 hk hka.frames hns hrun
  refine ⟨w, ?_, ?_⟩
  · rw [← hw]
    apply hgv.congr
    · intro q hq
      rw [hkc.frames.actReg h0 (Nat.le_refl k) hq, hka.frames.actReg h0 (Nat.le_refl k) hq]
    · intro q _ hlive
      have hread := (hlive.archs hl hm h0 hk (by omega) hkb hc).trans (hlive.archs hl hm h0 hk (by omega) hka hb)
      exact congrArg (fun bs => UInt64.ofNat (leVal bs)) hread
  · intro tg htg
    have hfine := (hgv.fine hl h0 hk).2 tg htg
    rw [← hplace tg htg]
    have hlen : 8 ≤ tg.len := (hgv.fine hl h0 hk).1.len_le htg
    rw [← Dst.read_take st' _ hlen, ← Dst.read_take sb _ hlen]
    refine congrArg (List.take 8) (archs_place hl hm h0 hk hfine (by omega) ?_ hkb hc)
    intro j hle hlt v hv b hb
    exact hgv.apart j (by omega) (.inr hle) v hv tg htg b hb

/-! ## After its frame -/

/-- No fixup for the register waits that will be resolved. -/
def Calm (x : RewriteArgs) (n : Nat) (sf : Nat → VFrame) (ds : Nat → CallSite) (gs : Nat → List (Group × Group)) (k : Nat) (q : UInt16)
    (fs : List Fixup) : Prop :=
  ∀ f ∈ fs, f.act = k → InReg f.destLoc q → ∀ a, ¬ ResolvesTo x n sf ds gs k f.srcAddr a

theorem Calm.later {q : UInt16} {fs fs' : List Fixup} (h : Calm x n sf ds gs k q fs) (hlater : Later x n sf ds gs k fs fs' st st') :
    Calm x n sf ds gs k q fs' :=
  fun f hf hact => h f (hlater.queue f hf hact) hact

/-- A calm register does not change any more. -/
theorem Calm.same {q : UInt16} {fs fs' : List Fixup} (h : Calm x n sf ds gs k q fs) (hlater : Later x n sf ds gs k fs fs' st st')
    {off : Nat} (hq : (getRegops x.handleDest.arch).reg q = .ok off) : st'.read (.reg k off) 8 = st.read (.reg k off) 8 := by
  obtain hsame | ⟨f, hf, hact, hin, a, ha, -⟩ := hlater.regs q off hq
  · exact hsame
  · exact absurd ha (h f hf hact hin a)

include hl hm h0 hk hgv in
/-- What comes later leaves the value that of its list. -/
theorem Evaluates.later {fs fs' : List Fixup} {m' : Nat} (h : Evaluates x ds n k d rs st) (hlater : Later x n sf ds gs k fs fs' st st')
    (hd : DestFrames x n ds m st.ctx) (hd' : DestFrames x n ds m' st'.ctx) (hkm : k ≤ m) (hkm' : k ≤ m')
    (hcalm : ∀ q, Reads rs q → InLive gs k q → Calm x n sf ds gs k q fs) : Evaluates x ds n k d rs st' := by
  obtain ⟨w, hw, hplace⟩ := h
  refine ⟨w, ?_, ?_⟩
  · rw [← hw]
    apply hgv.congr
    · intro q hq
      rw [hd'.actReg h0 hkm' hq, hd.actReg h0 hkm hq]
    · intro q hreads hlive
      have hreg := (calleeSaved_cases (hlive.fine hl hm h0 hk).1.calleeSaved).1
      exact congrArg (fun bs => UInt64.ofNat (leVal bs)) ((hcalm q hreads hlive).same hlater hreg)
  · intro tg htg
    obtain ⟨haddr, hfine⟩ := hgv.fine hl h0 hk
    have hlen : 8 ≤ tg.len := haddr.len_le htg
    rw [← hplace tg htg, ← Dst.read_take st' _ hlen, ← Dst.read_take st _ hlen]
    refine congrArg (List.take 8) (hlater.places tg ⟨hfine tg htg, ?_⟩)
    intro c hc a ha
    exact hgv.apart_live hl h0 hk hm hc ha htg

include hl hm h0 hk in
/-- An operand that is not late is calm after the arch-specific phase. -/
theorem FrameRun.calm (hs : SourceStack mem x n sf ds) {src : Ctx} (hsrc : SrcFrame x sf k src) {found b : Bool} {st1 st2 : Dst}
    (hrun : FrameRun mem x n sf ds gs k src found st b st1 st2 st') (hkept : Kept mem x n sf ds gs st0 k 0 st.ctx.stackPointers st)
    (hset : Settled x sf gs k 0 st.ctx.stackPointers false) {q : UInt16} (hearly : ¬ Late mem x n sf ds gs k q) :
    Calm x n sf ds gs k q st2.ctx.stackPointers := by
  intro f hf hact hin a ha
  rw [hrun.fixups] at hf
  obtain ⟨i, v, -, hc, hp, hfree⟩ := (hrun.walked hl hm hs hsrc h0 hk hkept hset).taken f hf hact
  obtain ⟨-, -, -, -, -, hinto⟩ := (hrun.kept hkept).1.queue f hf
  apply hearly
  refine ⟨i, v, f.destLoc, f.srcAddr, a, hc, hin, hp, hinto, ha, ?_⟩
  intro t c hlt hct
  exact hfree t c hlt (List.getElem?_eq_some_iff.mp hct).1 hct

end Frame

/-! ## The whole stack -/

/-- The values of the frames before `m` whose operands are final. -/
def ArchDone (mem : Mem) (x : RewriteArgs) (n : Nat) (sf : Nat → VFrame) (ds : Nat → CallSite) (gs : Nat → List (Group × Group))
    (m : Nat) (st : Dst) : Prop :=
  ∀ k d i rs, 0 < k → k < m → k + 1 < n → GenValue x n ds gs k d i rs → OperandsFinal mem x n sf ds gs k d rs →
    Evaluates x ds n k d rs st ∧ ∀ q, Reads rs q → InLive gs k q → Calm x n sf ds gs k q st.ctx.stackPointers

section Stack
variable (hl : StackLayout x ds n) (hm : Matched x n sf ds gs) (hs : SourceStack mem x n sf ds)

theorem StepRun.frames (hmn : m + 1 < n) {src : Ctx} {found : Bool} {st1 st2 : Dst}
    (hrun : StepRun mem x n sf ds gs m src found st st1 st2 st') : DestFrames x n ds (m + 1) st'.ctx := by
  rw [hrun.last]
  exact (hrun.kept.frames.popped st2.mem hmn hrun.pop).wrote (wrote_mem _ _ _)

include hl hm hs in
/-- A round of the rewrite. -/
theorem StepRun.archDone {src : Ctx} (hsrc : SrcFrame x sf m src) (h0 : 0 < m) (hmn : m + 1 < n) {found : Bool} {st1 st2 : Dst}
    (hrun : StepRun mem x n sf ds gs m src found st st1 st2 st') (hr : Rewriting mem x n sf ds gs m st)
    (h : ArchDone mem x n sf ds gs m st) : ArchDone mem x n sf ds gs (m + 1) st' := by
  have hframes := hrun.frames hmn
  intro k d i rs hk0 hkm hkn hgv hof
  rcases Nat.lt_or_eq_of_le (Nat.le_of_lt_succ hkm) with hlt | rfl
  · -- the frame is done: the round resolves fixups of it only
    obtain ⟨hev, hcalm⟩ := h k d i rs hk0 hlt hkn hgv hof
    have hlater := hrun.later hl hm hk0 hkn hs hsrc h0 hmn hlt
    refine ⟨hev.later hl hm hk0 hkn hgv hlater hr.kept.frames hframes (Nat.le_of_lt hlt) (Nat.le_of_lt hkm) hcalm, ?_⟩
    exact fun q hreads hlive => (hcalm q hreads hlive).later hlater
  · obtain ⟨b, sta, stb, hframe⟩ := rewriteFrame_run hl hm hs hsrc hk0 hmn hrun.entered hrun.settled hrun.frame
    obtain ⟨hka, hkb⟩ := hframe.kept hrun.entered
    have hev := hgv.phase hl hm hk0 hmn hof.dest hka hframe.archs
    have hcalm : ∀ q, Reads rs q → InLive gs k q → Calm x n sf ds gs k q stb.ctx.stackPointers :=
      fun q hreads hlive => hframe.calm hl hm hk0 hmn hs hsrc hrun.entered hrun.settled (hof.early q hreads hlive)
    have hlater := (hframe.fixups_later hl hm hk0 hmn hs hsrc hk0 hmn (Nat.le_refl k) hrun.entered).trans
      (hrun.next_later hl hk0 hmn hk0 hmn (Nat.le_refl k))
    refine ⟨hev.later hl hm hk0 hmn hgv hlater hkb.frames hframes (Nat.le_refl k) (Nat.le_of_lt hkm) hcalm, ?_⟩
    exact fun q hreads hlive => (hcalm q hreads hlive).later hlater

/-- What a list reads in a frame of the result is what the activation holds. -/
theorem DestAt.vreg {f : VFrame} (hf : DestAt x n ds st k f) (hd : DestFrames x n ds m st.ctx) (h0 : 0 < k) (hkm : k ≤ m) :
    (∀ q, q = spReg x.handleDest.arch ∨ q = fbpReg x.handleDest.arch → vreg x f q = actReg x st k q) ∧
      ∀ q, Ordinary x q → Coherent x ds n k q st → vreg x f q = actReg x st k q := by
  constructor
  · intro q hq
    obtain ⟨off, hoff, hbase⟩ := hf.base hq
    rw [hd.actReg h0 hkm hq, ← hbase]
    unfold Popcorn.Runtime.vreg
    rw [regOff_eq hoff]
  · intro q ho hco
    unfold Popcorn.Runtime.vreg actReg
    rw [hco, ← hf.saved q ho]
    rfl

end Stack

/-- After a rewrite that returns 0 an arch-specific value with a live operand is that of its list on
    the final registers of its frame, where its place and its operands' are found and no operand is
    a pointer resolved after the frame's arch-specific phase. -/
theorem arch_values_final (mem : Mem) (x : RewriteArgs) (n : Nat) (sf : Nat → VFrame) (ds : Nat → CallSite)
    (gs : Nat → List (Group × Group)) (hs : SourceStack mem x n sf ds) (hl : StackLayout x ds n) (hm : Matched x n sf ds gs)
    (haddr : AddrsFound x n ds) (out : Rewritten) (h : stRewriteStack mem x = .ok (some out)) (k : Nat) (h0 : 0 < k) (hk : k + 1 < n)
    (d : GenDest) (i : Nat) (rs : List ArchLiveValue) (hgv : GenValue x n ds gs k d i rs)
    (hof : OperandsFinal mem x n sf ds gs k d rs) : ArchValueFinal x n out k d rs := by
  obtain ⟨st, hr, ⟨hco, hdone⟩, rfl⟩ := stRewriteStack_rule hl hm hs
    (Q := fun m st => (∀ j r, Tracked x ds n m j r → Coherent x ds n j r st) ∧ ArchDone mem x n sf ds gs m st)
    (fun hu h1 => ⟨fun j r ht => rewriteOutermost_coherent hu hs.two h1 ht, fun k _ _ _ hk0 hk1 => by omega⟩)
    (fun hm0 hmn hsrc hrun hr hq => ⟨hrun.coherent hl hm hs hsrc hm0 hmn hq.1, hrun.archDone hl hm hs hsrc hm0 hmn hr hq.2⟩) h
  obtain ⟨df, hdf, hat⟩ := hr.unwinds hl hs.two haddr
  obtain ⟨⟨w, hw, hplace⟩, -⟩ := hdone k d i rs h0 (by omega) hk hgv hof
  obtain ⟨hbase, hregs⟩ := (hat k h0 (by omega)).vreg hr.kept.frames h0 (by omega)
  refine ⟨df, hdf, w, ?_, ?_⟩
  · rw [← hw]
    apply hgv.congr hbase
    intro q hreads hlive
    have hfine := hlive.fine hl hm h0 hk
    apply hregs q hfine.1
    exact hco k q ⟨h0, by omega, hk, hfine.1, hof.clean q hreads hlive, fun _ => hfine.2⟩
  · obtain ⟨haddr', hfine⟩ := hgv.fine hl h0 hk
    obtain ⟨tg, htg⟩ : ∃ tg, valTarget x ds n k d.record = some tg := by
      unfold valTarget target
      obtain ht | ht := hgv.type
      · exact ⟨.reg d.regnum, by rw [show d.record.type = d.type from rfl, ht]; rfl⟩
      · exact ⟨_, by rw [show d.record.type = d.type from rfl, ht]⟩
    rw [(hat k h0 (by omega)).vread haddr' htg (hfine tg htg) (haddr'.len_le htg), hplace tg htg]

end

/-! ## An operand that is resolved too late -/

/-- The inner function has a pointer in a callee-saved register; in the destination also the value
    four bytes on. The outer function has an array. -/
def latePtr (r : UInt16) : LiveValue := ⟨false, false, true, false, 1, 8, r, 0, 0⟩

def lateSrc : Handle where
  arch := .x86_64
  unwindAddrs := [⟨0xF00, 2, 0⟩]
  unwindLocs := [⟨6, 0⟩, ⟨16, 8⟩]
  sitesId := [⟨1, 0x1100, 32, 2, 0, 1, 0, 0, 0⟩, ⟨2, 0x1200, 64, 2, 0, 1, 1, 0, 0⟩, demoStop, ⟨uint64Max, 0x1300, 16, 2, 0, 0, 2, 0, 0⟩]
  sitesAddr := [demoStop, ⟨1, 0x1100, 32, 2, 0, 1, 0, 0, 0⟩, ⟨2, 0x1200, 64, 2, 0, 1, 1, 0, 0⟩, ⟨uint64Max, 0x1300, 16, 2, 0, 0, 2, 0, 0⟩]
  liveVals i := [latePtr 3, demoAlloca 6 (-40) 16].getD i demoNone
  liveValsCount := 2
  archLiveVals := []
  sites_len := rfl

def lateSites : List CallSite :=
  [⟨1, 0x5100, 48, 4, 0, 1, 0, 2, 0⟩, ⟨2, 0x5200, 80, 2, 0, 1, 1, 0, 0⟩, ⟨uint64Max, 0x5300, 32, 2, 0, 0, 2, 0, 0⟩]

/-- X20 is X19 and 4. -/
def lateValue : GenDest := ⟨1, 20, 0⟩
def lateRecords : List ArchLiveValue := [⟨false, ⟨0, pad_pos⟩, 1, 8, 20, 0, 1, 0, 8, 19, 0⟩, ⟨false, ⟨0, pad_pos⟩, 1, 8, 20, 0, 4, 1, 8, 0, 4⟩]

def lateDest : Handle where
  arch := .aarch64
  unwindAddrs := []
  unwindLocs := [⟨29, 0⟩, ⟨30, 8⟩, ⟨19, -8⟩, ⟨20, -16⟩]
  sitesId := lateSites
  sitesAddr := lateSites
  liveVals i := [latePtr 19, demoAlloca 29 (-48) 16].getD i demoNone
  liveValsCount := 2
  archLiveVals := lateRecords
  sites_len := rfl

/-- `into` is whether the pointer is one into the array. -/
def lateRegs (into : Bool) : RegSet :=
  rset (rset (rset (rset (fun _ => 0) 0 0x1000) 64 0x10000) 56 0x10000) 32 (if into then 0x1003C else 0x2A)

def lateArgs (into : Bool) : RewriteArgs where
  handleSrc := lateSrc
  regsetSrc := lateRegs into
  spBaseSrc := 0x10080
  freshSrc := ⟨fun _ => ⟨emptyCallSite, 0, fun _ => 0, ⟨0, 0⟩⟩, fun _ => 0⟩
  handleDest := lateDest
  spBaseDest := 0x40000
  freshDest := ⟨fun _ => ⟨emptyCallSite, 0, fun _ => 0, ⟨0, 0⟩⟩, fun _ => 0⟩
  foundFixup _ := false

def lateFrame (into : Bool) : Nat → VFrame
  | 0 => ⟨demoStop, lateRegs into, 0x10010⟩
  | k + 1 => (vnext demoMem lateSrc (lateFrame into k)).getD ⟨emptyCallSite, lateRegs into, 0⟩

def lateDs (k : Nat) : CallSite := (emptyCallSite :: lateSites).getD k emptyCallSite

def lateGroups : Nat → List (Group × Group)
  | 1 => [(.single (latePtr 3) rfl, .single (latePtr 19) rfl)]
  | 2 => [(.single (demoAlloca 6 (-40) 16) rfl, .single (demoAlloca 29 (-48) 16) rfl)]
  | _ => []

def lateRead {α : Type} (into : Bool) (g : Mem → VFrame → Option α) : Option α :=
  match stRewriteStack demoMem (lateArgs into) with
  | .ok (some out) => (ventry out.mem lateDest out.regs).bind (g out.mem)
  | _ => none

theorem lateSourceStack (into : Bool) : SourceStack demoMem (lateArgs into) 4 (lateFrame into) lateDs where
  two := by decide
  first := by
    show vframe lateSrc (lateRegs into) = _
    have hsite : getSiteByAddr lateSrc (UInt64.ofNat ((getRegops lateSrc.arch).pc (lateRegs into))) = some demoStop := by
      revert into
      decide
    have hsp : padd ((getRegops lateSrc.arch).sp (lateRegs into)) demoStop.frameSize.toNat = 0x10010 := by
      revert into
      decide
    unfold vframe
    rw [hsite]
    simp only [Option.map_some, hsp]
    rfl
  visits := by
    constructor
    · intro k hk
      have hsome : (vnext demoMem lateSrc (lateFrame into k)).isSome = true := by
        obtain rfl | rfl | rfl : k = 0 ∨ k = 1 ∨ k = 2 := by omega
        all_goals revert into; decide
      obtain ⟨f, hf⟩ := Option.isSome_iff_exists.mp hsome
      show vnext demoMem lateSrc (lateFrame into k) = some ((vnext demoMem lateSrc (lateFrame into k)).getD _)
      rw [hf]
      rfl
    · intro k h0 hk
      show getSiteById lateDest (lateFrame into k).site.id = some (lateDs k)
      obtain rfl | rfl | rfl : k = 1 ∨ k = 2 ∨ k = 3 := by omega
      all_goals clear hk; revert into; decide
  start := by revert into; decide
  inner k h0 hk := by
    obtain rfl | rfl : k = 1 ∨ k = 2 := by omega
    all_goals clear h0 hk; revert into; decide

theorem lateStackLayout (into : Bool) : StackLayout (lateArgs into) lateDs 4 where
  fits := by constructor <;> revert into <;> decide
  frames k h0 hk := by
    have hkey : ∀ t' < (lateDs k).numLive.toNat, ∀ t < t', ∀ a ∈ valTarget (lateArgs into) lateDs 4 k (destLive (lateArgs into) lateDs k t),
        ∀ b ∈ valTarget (lateArgs into) lateDs 4 k (destLive (lateArgs into) lateDs k t'), a.Disj b := by
      obtain rfl | rfl : k = 1 ∨ k = 2 := by omega
      all_goals clear h0 hk; revert into; decide
    refine ⟨⟨?_, ?_, ?_, ?_, ?_⟩, ?_, ?_, ?_, ?_, ?apart, ?_⟩
    case apart => exact fun t t' h h' => hkey t' h' t h
    all_goals
      clear hkey
      obtain rfl | rfl : k = 1 ∨ k = 2 := by omega
      all_goals clear h0 hk; revert into; decide

theorem lateMatched (into : Bool) : Matched (lateArgs into) 4 (lateFrame into) lateDs lateGroups where
  src k h0 hk := by
    obtain rfl | rfl : k = 1 ∨ k = 2 := by omega
    all_goals apply GroupsAt.single <;> clear h0 hk <;> revert into <;> decide
  dest k h0 hk := by
    obtain rfl | rfl : k = 1 ∨ k = 2 := by omega
    all_goals apply GroupsAt.single <;> clear h0 hk <;> revert into <;> decide
  numLive k h0 hk := by
    obtain rfl | rfl : k = 1 ∨ k = 2 := by omega
    all_goals rfl
  size k h0 hk := by
    obtain rfl | rfl : k = 1 ∨ k = 2 := by omega
    all_goals clear h0 hk; decide
  isPtr k h0 hk := by
    obtain rfl | rfl : k = 1 ∨ k = 2 := by omega
    all_goals clear h0 hk; decide
  isAlloca k h0 hk := by
    obtain rfl | rfl : k = 1 ∨ k = 2 := by omega
    all_goals clear h0 hk; decide
  alloca k h0 hk g hg ha := by
    obtain rfl | rfl : k = 1 ∨ k = 2 := by omega
    · obtain rfl := List.mem_singleton.mp hg
      cases ha
    · obtain rfl := List.mem_singleton.mp hg
      refine ⟨rfl, 0x10038, 0x3FFA0, ?_⟩
      clear h0 hk hg ha
      revert into
      decide
  apart k h0 hk := by
    have hkey : ∀ c ∈ cellsOf (lateGroups k), ∀ a ∈ vaddr lateSrc (lateFrame into k) c.1,
        a + c.1.valSize ≤ destLow (lateArgs into) 4 lateDs ∨ destHigh (lateArgs into) 4 lateDs ≤ a := by
      obtain rfl | rfl : k = 1 ∨ k = 2 := by omega
      all_goals clear h0 hk; revert into; decide
    exact fun c hc a ha => hkey c hc a ha

theorem lateAddrsFound (into : Bool) : AddrsFound (lateArgs into) 4 lateDs := by
  intro k h0 hk
  obtain rfl | rfl | rfl : k = 1 ∨ k = 2 ∨ k = 3 := by omega
  all_goals clear h0 hk; revert into; decide

theorem late_returns (into : Bool) : ∃ out, stRewriteStack demoMem (lateArgs into) = .ok (some out) := by
  apply returns_of_isSome
  revert into
  decide +kernel

/-- X19 is the one operand in a register. -/
theorem late_reads {q : UInt16} (h : Reads lateRecords q) : q = 19 := by
  obtain ⟨r, hr, o, ho, hq⟩ := h
  obtain rfl | hr := List.mem_cons.mp hr
  · obtain rfl := Option.some.inj ho
    exact (Option.some.inj hq).symm
  · obtain rfl := List.mem_singleton.mp hr
    obtain rfl := Option.some.inj ho
    cases hq

theorem late_inLive : InLive lateGroups 1 19 := ⟨(latePtr 3, latePtr 19), List.mem_singleton.mpr rfl, rfl, rfl⟩

theorem lateGenValue (into : Bool) : GenValue (lateArgs into) 4 lateDs lateGroups 1 lateValue 0 lateRecords where
  inside := by decide
  records t r h := by
    obtain rfl | rfl : t = 0 ∨ t = 1 := by
      have := (List.getElem?_eq_some_iff.mp h).1
      have hlen : lateRecords.length = 2 := rfl
      omega
    all_goals exact h
  type := .inl rfl
  dest := by decide
  apart j hj h := by
    have hlen : lateRecords.length = 2 := rfl
    have hnum : (lateDs 1).numArchLive.toNat = 2 := rfl
    omega
  first := by
    refine ⟨_, _, .register 19, rfl, rfl, rfl, ?_⟩
    intro q hq hown
    cases hq
    exact absurd hown.2 (by decide)
  operands q h := by
    obtain rfl := late_reads h
    exact .inr (.inr (.inr late_inLive))
  live := ⟨_, List.mem_cons_self, 19, rfl, late_inLive⟩

/-- A pointer that is not one into the stack is copied at once. -/
theorem lateOperandsFinal : OperandsFinal demoMem (lateArgs false) 4 (lateFrame false) lateDs lateGroups 1 lateValue lateRecords where
  dest _ := NoStaleBit.of_clean (fun _ _ _ _ _ => rfl) lateDs (by decide) (by decide)
  clean q h _ := by
    obtain rfl := late_reads h
    exact NoStaleBit.of_clean (fun _ _ _ _ _ => rfl) lateDs (by decide) (by decide)
  early q h _ := by
    rintro ⟨t, v, w, addr, d, hc, -, hp, hinto, -⟩
    have hv : v = latePtr 3 := by
      have hmem := List.mem_of_getElem? hc
      obtain rfl := congrArg Prod.fst (List.mem_singleton.mp hmem)
      rfl
    have haddr : (vread demoMem lateSrc (lateFrame false 1) (latePtr 3) 8).map leVal = some 0x2A := by decide
    obtain ⟨-, -, hread⟩ := hp
    rw [hv] at hread
    obtain rfl := Option.some.inj (hread.symm.trans haddr)
    have hbelow : 0x2A < (getRegops lateSrc.arch).sp (lateFrame false 0).regs := by decide
    exact absurd hinto.1 (Nat.not_le.mpr hbelow)

theorem arch_values_final_plain : ∃ out, stRewriteStack demoMem (lateArgs false) = .ok (some out) ∧
    ArchValueFinal (lateArgs false) 4 out 1 lateValue lateRecords := by
  obtain ⟨out, hout⟩ := late_returns false
  exact ⟨out, hout, arch_values_final demoMem (lateArgs false) 4 (lateFrame false) lateDs lateGroups (lateSourceStack false)
    (lateStackLayout false) (lateMatched false) (lateAddrsFound false) out hout 1 (by decide) (by decide) lateValue 0 lateRecords
    (lateGenValue false) lateOperandsFinal⟩

/-- A pointer into the outer function's array: X19 is re-pointed, but X20 keeps what its list was
    before. -/
theorem late_operand_unresolved : ∃ out, SourceStack demoMem (lateArgs true) 4 (lateFrame true) lateDs ∧
    StackLayout (lateArgs true) lateDs 4 ∧ Matched (lateArgs true) 4 (lateFrame true) lateDs lateGroups ∧
    AddrsFound (lateArgs true) 4 lateDs ∧ GenValue (lateArgs true) 4 lateDs lateGroups 1 lateValue 0 lateRecords ∧
    (∀ r, NoStaleBit (lateArgs true) lateDs 4 1 r ∨ isCalleeSaved (lateArgs true).handleDest.arch r = false) ∧
    stRewriteStack demoMem (lateArgs true) = .ok (some out) ∧ ¬ ArchValueFinal (lateArgs true) 4 out 1 lateValue lateRecords := by
  obtain ⟨out, hout⟩ := late_returns true
  refine ⟨out, lateSourceStack true, lateStackLayout true, lateMatched true, lateAddrsFound true, lateGenValue true, ?_, hout, ?_⟩
  · intro r
    cases hr : isCalleeSaved (lateArgs true).handleDest.arch r with
    | true => exact .inl (NoStaleBit.of_clean (fun _ _ _ _ _ => rfl) lateDs (by decide) hr)
    | false => exact .inr rfl
  · rintro ⟨df, hdf, w, hw, hread⟩
    have hentry : ventry out.mem lateDest out.regs = some (df 1) := hdf.entry
    have hreg : lateRead true (fun _ f => some (runRecords lateValue (vreg (lateArgs true) f) 0 lateRecords)) = some (some 0x3FFA8) := by
      decide +kernel
    have hval : lateRead true (fun m f => vread m lateDest f lateValue.record 8) = some (leBytes 8 4) := by decide +kernel
    unfold lateRead at hreg hval
    rw [hout] at hreg hval
    simp only [hentry, Option.bind_some] at hreg hval
    obtain rfl := Option.some.inj (hw.symm.trans (Option.some.inj hreg))
    have hsame : leBytes 8 (0x3FFA8 : UInt64).toNat = leBytes 8 4 := Option.some.inj (hread.symm.trans hval)
    exact absurd hsame (by decide)

end Popcorn.Runtime
