/-
  Popcorn.Runtime.Consume — from the compiler's call sites to their rewriting.

  A call site is compiled for two targets. Each emits a record for it (`callsiteRecord`),
  gen-stackinfo makes a call site of the record (`populateRecord`), and the runtime rewrites
  a frame at the source's site to one at the destination's (`rewriteFrame`). `Consumable`
  says that nothing goes wrong on the way, whatever the state of the process.

  Proved:
  - `AtSite.frameAt`: the frame's records are those the compiler lowered the operands to.
  - `site_consumable_iff`: which call sites are consumable.
-/

import Popcorn.Metadata.Lowering
import Popcorn.Metadata.Write
import Popcorn.Runtime.Aborts

namespace Popcorn.Runtime

open Popcorn.Lib Popcorn.Metadata

/-! ## Compiled sites -/

/-- A stackmap in one binary: the module its record is in, what its target has lowered it to,
    and the ID gen-stackinfo gives next. -/
structure CompiledSite where
  mod : Module
  map : LoweredStackmap
  startId : UInt64
  /-- The emitter enters a function in `FnStackSize` with its first stackmap. -/
  recorded : ∃ f ∈ mod.fnStackSize, f.sym = map.func
  fits : mod.fnStackSize.length < 4294967296

namespace CompiledSite

def arch (c : CompiledSite) : Arch := c.map.target.arch
def info (c : CompiledSite) : CallsiteInfo := recordStackMapOpers c.map

end CompiledSite

/-- gen-stackinfo reads the record of `c` as `r`. -/
def ReadAs (c : CompiledSite) (r : CallSiteRecord) : Prop :=
  ∃ m a, At m a (callsiteRecord c.mod c.info) ∧ (readRecord m a).1 = r

/-- `create_call_site_metadata` makes `site` of the record `r` of `c`. -/
structure CreatedFrom (c : CompiledSite) (r : CallSiteRecord) (site : CallSite) : Prop where
  read : ReadAs c r
  created : ∃ addrs sm st st', sm.functionRecords.length = c.mod.fnStackSize.length ∧ st.startId = c.startId ∧
    populateRecord c.arch addrs sm st r = .ok st' ∧ st'.sites = st.sites ++ [site]

/-- One call site of the program in the two binaries. -/
structure SitePair where
  src : CompiledSite
  dest : CompiledSite
  /-- Both lower the same operands. -/
  same_ops : List.Forall₂ (fun a b => a.isPointerTy = b.isPointerTy ∧ a.isAllocaInst = b.isAllocaInst) src.map.ops dest.map.ops

/-! ## Consumable sites -/

/-- The records stand in the live-value section from index `i` on, and the next value's after
    them. -/
structure LiveAt (h : Handle) (i : Nat) (recs : List LiveValue) : Prop where
  records : RecordsAt h i recs
  inside : i + recs.length ≤ h.liveValsCount
  ends : (h.liveVals (i + recs.length)).isDuplicate = false

/-- A frame of `src` at a site made of the record `rs` is about to be rewritten to one of `st`
    at a site made of `rd`. -/
structure AtSite (p : SitePair) (rs rd : CallSiteRecord) (src : Ctx) (st : Dst) : Prop where
  srcArch : src.handle.arch = p.src.arch
  destArch : st.ctx.handle.arch = p.dest.arch
  srcSite : CreatedFrom p.src rs src.cur.site
  destSite : CreatedFrom p.dest rd st.ctx.cur.site
  srcLive : LiveAt src.handle src.cur.site.liveOffset rs.locations
  destLive : LiveAt st.ctx.handle st.ctx.cur.site.liveOffset rd.locations
  destArchLive : ∀ t v, rd.archLive[t]? = some v → st.ctx.handle.archLiveVals[st.ctx.cur.site.archLiveOffset + t]? = some v
  act : st.ctx.act = src.act
  /-- The outermost frame is not rewritten. -/
  pos : 0 < src.act
  stack : 0 < src.stack ∧ src.stack ≤ src.stackBase
  /-- What other frames have left in the queue can be written. -/
  queue : ∀ f ∈ st.ctx.stackPointers, Placeable st.ctx.regops f.destLoc

/-- gen-stackinfo takes the record: its function index is in range, and a site that is no start
    function's does not get the ID of one. -/
structure ToolConsumes (c : CompiledSite) : Prop where
  index : ∀ r, ReadAs c r → ∀ addrs sm st, sm.functionRecords.length = c.mod.fnStackSize.length →
    populateRecord c.arch addrs sm st r ≠ .error .outOfBounds
  id : ∀ r site, CreatedFrom c r site → reservedId c.map.id = false → reservedId site.id = false

/-- The tools and the runtime take the call site: from no state does rewriting a frame at it
    reach `ST_ERR`. -/
structure Consumable (p : SitePair) : Prop where
  src : ToolConsumes p.src
  dest : ToolConsumes p.dest
  rewrite : ∀ rs rd src st found, AtSite p rs rd src st → ∀ code fmt args, rewriteFrame src found st ≠ .error (.stErr code fmt args)

/-! ## The values of a site -/

/-- The records of an operand. -/
def operandRecords (s : LoweredStackmap) (op : StackmapOp) : List LiveValue := (s.group op).map decodeLocation

theorem moveToConstPool_duplicate (pool : Int64 → Int64) (l : Location) : (moveToConstPool pool l).duplicate = l.duplicate := by
  unfold moveToConstPool
  split <;> rfl

theorem moveToConstPool_alloca (pool : Int64 → Int64) (l : Location) : (moveToConstPool pool l).alloca = l.alloca := by
  unfold moveToConstPool
  split <;> rfl

/-- Only a constant moves to the constant pool. -/
theorem moveToConstPool_of_ne {pool : Int64 → Int64} {l : Location} (h : l.type ≠ .constant) : moveToConstPool pool l = l := by
  unfold moveToConstPool
  rw [if_neg (fun hc => h hc.1)]

/-- An operand's first record is followed by duplicates of the same value. -/
theorem parseOperand_eq (t : Metadata.Target) (op : StackmapOp) :
    ∃ l ls, parseOperand t op = l :: ls ∧ l.duplicate = false ∧ ∀ l' ∈ ls, l'.duplicate = true := by
  unfold parseOperand
  dsimp only
  cases op.operand with
  | register dwarf offset dups =>
    refine ⟨_, _, rfl, rfl, ?_⟩
    intro l' hl
    obtain ⟨m, -, rfl⟩ := List.mem_map.mp hl
    cases m <;> rfl
  | directMemRef reg imm => exact ⟨_, _, rfl, rfl, fun l' hl => absurd hl List.not_mem_nil⟩
  | indirectMemRef reg imm => exact ⟨_, _, rfl, rfl, fun l' hl => absurd hl List.not_mem_nil⟩
  | constant imm => exact ⟨_, _, rfl, rfl, fun l' hl => absurd hl List.not_mem_nil⟩

theorem operandRecords_eq (s : LoweredStackmap) (op : StackmapOp) :
    ∃ v vs, operandRecords s op = v :: vs ∧ v.isDuplicate = false ∧ ∀ d ∈ vs, d.isDuplicate = true := by
  obtain ⟨l, ls, hop, hl, hls⟩ := parseOperand_eq s.target op
  refine ⟨decodeLocation (moveToConstPool s.pool l), (ls.map (moveToConstPool s.pool)).map decodeLocation, ?_, ?_, ?_⟩
  · unfold operandRecords LoweredStackmap.group
    rw [hop]
    rfl
  · exact (moveToConstPool_duplicate s.pool l).trans hl
  · intro d hd
    obtain ⟨l', hl', rfl⟩ := List.mem_map.mp hd
    obtain ⟨l'', hl'', rfl⟩ := List.mem_map.mp hl'
    exact (moveToConstPool_duplicate s.pool l'').trans (hls l'' hl'')

/-- The records of an operand as one value's group. -/
def valueGroup (s : LoweredStackmap) (op : StackmapOp) : Group :=
  match h : operandRecords s op with
  | [] => absurd h (by obtain ⟨v, vs, hv, -⟩ := operandRecords_eq s op; rw [hv]; exact List.cons_ne_nil v vs)
  | v :: vs =>
    { first := v
      dups := vs
      first_not_dup := by
        obtain ⟨v', vs', hv, hd, -⟩ := operandRecords_eq s op
        cases h.symm.trans hv
        exact hd
      dups_dup := by
        obtain ⟨v', vs', hv, -, hd⟩ := operandRecords_eq s op
        cases h.symm.trans hv
        exact hd }

theorem valueGroup_records (s : LoweredStackmap) (op : StackmapOp) : (valueGroup s op).records = operandRecords s op := by
  unfold valueGroup
  split
  · rename_i h
    obtain ⟨v, vs, hv, -⟩ := operandRecords_eq s op
    cases h.symm.trans hv
  · rename_i v vs h
    exact h.symm

/-- Every record of an operand says whether it is an alloca, and an alloca is in a place. -/
theorem parseOperand_alloca {t : Metadata.Target} {op : StackmapOp} {l : Location} (h : l ∈ parseOperand t op) :
    l.alloca = (op.isPointerTy && op.isAllocaInst) ∧ (l.alloca = true → l.type ≠ .constant) ∧ l.type ≠ .constantIndex := by
  have hinfo : (getPointerInfo op).2.1 = (op.isPointerTy && op.isAllocaInst) := by
    unfold getPointerInfo
    cases op.isPointerTy <;> cases op.isAllocaInst <;> rfl
  unfold parseOperand at h
  dsimp only at h
  cases hop : op.operand with
  | register dwarf offset dups =>
    rw [hop] at h
    obtain rfl | h := List.mem_cons.mp h
    · exact ⟨hinfo, fun _ e => (nomatch e), fun e => (nomatch e)⟩
    · obtain ⟨m, -, rfl⟩ := List.mem_map.mp h
      cases m <;> exact ⟨hinfo, fun _ e => (nomatch e), fun e => (nomatch e)⟩
  | directMemRef reg imm =>
    rw [hop] at h
    cases List.mem_singleton.mp h
    exact ⟨hinfo, fun _ e => (nomatch e), fun e => (nomatch e)⟩
  | indirectMemRef reg imm =>
    rw [hop] at h
    cases List.mem_singleton.mp h
    exact ⟨hinfo, fun _ e => (nomatch e), fun e => (nomatch e)⟩
  | constant imm =>
    rw [hop] at h
    cases List.mem_singleton.mp h
    refine ⟨hinfo, ?_, fun e => (nomatch e)⟩
    intro ha
    rw [hinfo, Bool.and_eq_true] at ha
    exact absurd hop (op.alloca_place ha.1 ha.2 imm)

theorem operandRecords_alloca {s : LoweredStackmap} {op : StackmapOp} {v : LiveValue} (h : v ∈ operandRecords s op) :
    v.isAlloca = (op.isPointerTy && op.isAllocaInst) ∧ (v.isAlloca = true → isConstant v = false) := by
  obtain ⟨l', hl', rfl⟩ := List.mem_map.mp h
  obtain ⟨l, hl, rfl⟩ := List.mem_map.mp hl'
  obtain ⟨h1, h2, h3⟩ := parseOperand_alloca hl
  have ha := moveToConstPool_alloca s.pool l
  refine ⟨ha.trans h1, ?_⟩
  intro hal
  have hal' : l.alloca = true := ha.symm.trans hal
  rw [moveToConstPool_of_ne (h2 hal')]
  unfold isConstant decodeLocation
  cases ht : l.type with
  | constant => exact absurd ht (h2 hal')
  | constantIndex => exact absurd ht h3
  | unprocessed => rfl
  | register => rfl
  | direct => rfl
  | indirect => rfl

/-! ## The condition -/

/-- The lists of the site can be encoded, and the next ID is not reserved where it is used. -/
structure ToolSupports (c : CompiledSite) : Prop where
  encodes : overflows c.info = false
  nextId : reservedId c.map.id = false → reservedId c.startId = false

structure Supported (p : SitePair) : Prop where
  src : ToolSupports p.src
  dest : ToolSupports p.dest
  values : ∀ q ∈ p.src.map.ops.zip p.dest.map.ops, ∀ w ∈ operandRecords p.dest.map q.2,
    ValueSupported (getRegops p.src.arch) (getRegops p.dest.arch) (valueGroup p.src.map q.1).first w
  arch : ∀ v ∈ p.dest.info.vals, ArchSupported (getRegops p.dest.arch) (decodeArchValue v)

/-- No operand is a `va_list`, which is skipped, and no operation can be undefined. -/
structure Plain (p : SitePair) : Prop where
  values : ∀ q ∈ p.src.map.ops.zip p.dest.map.ops, ∀ w ∈ operandRecords p.dest.map q.2,
    skipVaList (valueGroup p.src.map q.1).first w = false
  arch : ∀ v ∈ p.dest.info.vals, OperationDefined (decodeArchValue v)

/-! ## The tool -/

section
variable {c : CompiledSite} {r : CallSiteRecord} {site : CallSite}

theorem ReadAs.decodes (h : ReadAs c r) (hc : overflows c.info = false) :
    r.id = c.map.id ∧ r.funcIdx.toNat < c.mod.fnStackSize.length ∧
      r.locations = c.map.ops.flatMap (operandRecords c.map) ∧ r.archLive = c.info.vals.map decodeArchValue := by
  obtain ⟨m, a, hat, rfl⟩ := h
  obtain ⟨hid, hfn, hlocs, harch⟩ := readRecord_decodes c.fits hc hat
  refine ⟨hid, ?_, ?_, harch⟩
  · obtain ⟨f, hf, hsym⟩ := c.recorded
    rw [hfn]
    exact List.findIdx_lt_length.mpr ⟨f, hf, beq_iff_eq.mpr hsym⟩
  · rw [hlocs]
    exact List.map_flatMap

theorem populateRecord_index {arch : Arch} {addrs : List UnwindAddr} {sm : StackMapSection} {st : Populate} :
    populateRecord arch addrs sm st r = .error .outOfBounds ↔ sm.functionRecords.length ≤ r.funcIdx.toNat := by
  unfold populateRecord
  split
  · rename_i h
    exact ⟨fun _ => List.getElem?_eq_none_iff.mp h, fun _ => rfl⟩
  · rename_i fr h
    have hlt := (List.getElem?_eq_some_iff.mp h).1
    dsimp only
    split
    · exact ⟨fun e => (nomatch e), fun hle => absurd hlt (Nat.not_lt.mpr hle)⟩
    · exact ⟨fun e => (nomatch e), fun hle => absurd hlt (Nat.not_lt.mpr hle)⟩

/-- What the site made of a record says of it. -/
theorem CreatedFrom.site_eq (h : CreatedFrom c r site) :
    site.id = (if reservedId r.id then r.id else c.startId) ∧ site.numLive = r.numLocations ∧
      site.numArchLive = r.numArchLive := by
  obtain ⟨addrs, sm, st, st', -, hst, hpop, hsites⟩ := h.created
  unfold populateRecord at hpop
  split at hpop
  · cases hpop
  · dsimp only at hpop
    split at hpop
    · cases hpop
    · cases hpop
      cases List.append_cancel_left hsites
      exact ⟨by rw [← hst], rfl, rfl⟩

end

/-! ## The frame -/

def SitePair.groups (p : SitePair) : List (Group × Group) :=
  (p.src.map.ops.zip p.dest.map.ops).map fun q => (valueGroup p.src.map q.1, valueGroup p.dest.map q.2)

theorem SitePair.groups_fst (p : SitePair) : p.groups.map Prod.fst = p.src.map.ops.map (valueGroup p.src.map) := by
  have hlen := p.same_ops.length_eq
  unfold SitePair.groups
  rw [List.map_map, show (Prod.fst ∘ fun q : StackmapOp × StackmapOp => (valueGroup p.src.map q.1, valueGroup p.dest.map q.2)) =
    valueGroup p.src.map ∘ Prod.fst from rfl, ← List.map_map, List.map_fst_zip (by omega)]

theorem SitePair.groups_snd (p : SitePair) : p.groups.map Prod.snd = p.dest.map.ops.map (valueGroup p.dest.map) := by
  have hlen := p.same_ops.length_eq
  unfold SitePair.groups
  rw [List.map_map, show (Prod.snd ∘ fun q : StackmapOp × StackmapOp => (valueGroup p.src.map q.1, valueGroup p.dest.map q.2)) =
    valueGroup p.dest.map ∘ Prod.snd from rfl, ← List.map_map, List.map_snd_zip (by omega)]

theorem flatMap_records (s : LoweredStackmap) (ops : List StackmapOp) :
    (ops.map (valueGroup s)).flatMap Group.records = ops.flatMap (operandRecords s) := by
  rw [List.flatMap_map]
  exact List.flatMap_congr fun op _ => valueGroup_records s op

theorem LiveAt.groupsAt {h : Handle} {i : Nat} {recs : List LiveValue} {gs : List Group} (hl : LiveAt h i recs)
    (hgs : gs.flatMap Group.records = recs) : GroupsAt h i gs := by
  subst hgs
  exact ⟨hl.records, hl.inside, hl.ends⟩

theorem AtSite.frameAt {p : SitePair} {rs rd : CallSiteRecord} {src : Ctx} {st : Dst} (h : AtSite p rs rd src st)
    (hsrc : overflows p.src.info = false) (hdest : overflows p.dest.info = false) :
    FrameAt src st.ctx p.groups (p.dest.info.vals.map decodeArchValue) := by
  obtain ⟨-, -, hs, -⟩ := h.srcSite.read.decodes hsrc
  obtain ⟨-, -, hd, ha⟩ := h.destSite.read.decodes hdest
  obtain ⟨-, hnum, hnumArch⟩ := h.destSite.site_eq
  have hrecs : (p.groups.map Prod.snd).flatMap Group.records = rd.locations := by
    rw [p.groups_snd, flatMap_records, hd]
  constructor
  · apply h.srcLive.groupsAt
    rw [p.groups_fst, flatMap_records, hs]
  · exact h.destLive.groupsAt hrecs
  · rw [hnum, numLocations_toNat, hrecs]
  · rw [← ha]
    exact h.destArchLive
  · rw [hnumArch, numArchLive_toNat, ha]

/-- The values of a supported site, with what the operands' own types add. -/
theorem Supported.groups {p : SitePair} (h : Supported p) :
    GroupsSupported (getRegops p.src.arch) (getRegops p.dest.arch) p.groups := by
  have hvalues : ∀ g ∈ p.groups, ∀ w ∈ g.2.records,
      ValueSupported (getRegops p.src.arch) (getRegops p.dest.arch) g.1.first w := by
    intro g hg w hw
    obtain ⟨q, hq, rfl⟩ := List.mem_map.mp hg
    exact h.values q hq w (valueGroup_records p.dest.map q.2 ▸ hw)
  refine ⟨hvalues, ?_⟩
  intro g hg w hw hal
  obtain ⟨q, hq, rfl⟩ := List.mem_map.mp hg
  have hv : (valueGroup p.src.map q.1).first ∈ operandRecords p.src.map q.1 := by
    rw [← valueGroup_records]
    exact List.mem_cons_self
  have hw' : w ∈ operandRecords p.dest.map q.2 := valueGroup_records p.dest.map q.2 ▸ hw
  obtain ⟨hva, hvc⟩ := operandRecords_alloca hv
  obtain ⟨hwa, hwc⟩ := operandRecords_alloca hw'
  obtain ⟨hptr, hinst⟩ := (List.forall₂_iff_zip.mp p.same_ops).2 hq
  have hwal : w.isAlloca = true := by
    rw [hwa, ← hptr, ← hinst, ← hva]
    exact hal
  obtain ⟨hlw, hlv⟩ := (hvalues _ hg w hw).value (hwc hwal)
  refine ⟨hlv.resolve_left ?_, hlw⟩
  intro hc
  have := hvc hal
  unfold isConstant at this
  rw [hc] at this
  cases this

/-- A binary whose sections hold one record. -/
def recordHandle (arch : Arch) (r : CallSiteRecord) : Handle where
  arch := arch
  unwindAddrs := []
  unwindLocs := []
  sitesId := []
  sitesAddr := []
  liveVals i := r.locations.getD i ⟨false, false, false, false, 0, 0, 0, 0, 0⟩
  liveValsCount := r.locations.length
  archLiveVals := r.archLive
  sites_len := rfl

/-- The second frame of an empty stack. -/
def recordCtx (arch : Arch) (r : CallSiteRecord) (site : CallSite) : Ctx where
  handle := recordHandle arch r
  stackBase := 1
  stack := 1
  numActs := 2
  act := 1
  acts _ := ⟨site, 0, fun _ => 0, 0, 0⟩
  stackPointers := []
  pool _ := 0

theorem recordHandle_liveAt (arch : Arch) (r : CallSiteRecord) : LiveAt (recordHandle arch r) 0 r.locations where
  records t v hv := by
    unfold recordHandle
    dsimp only
    rw [Nat.zero_add, List.getD_eq_getElem?_getD, hv]
    rfl
  inside := by rw [Nat.zero_add]; rfl
  ends := by
    unfold recordHandle
    dsimp only
    rw [Nat.zero_add, List.getD_eq_getElem?_getD, List.getElem?_eq_none (Nat.le_refl _)]
    rfl

/-- gen-stackinfo makes a site of a record whose lists can be encoded, the first of its
    sections. -/
theorem exists_createdFrom (c : CompiledSite) (hc : overflows c.info = false) :
    ∃ r site, CreatedFrom c r site ∧ site.liveOffset = 0 ∧ site.archLiveOffset = 0 := by
  have hread : ReadAs c (readRecord (store (fun _ => 0) 0 (callsiteRecord c.mod c.info)) 0).1 := ⟨_, _, at_store _ _ _, rfl⟩
  generalize (readRecord (store (fun _ => 0) 0 (callsiteRecord c.mod c.info)) 0).1 = r at hread
  have hlt := (hread.decodes hc).2.1
  let sm : StackMapSection := ⟨0, 0, 0, List.replicate c.mod.fnStackSize.length ⟨0, 0, 0, 0⟩, [], []⟩
  let st : Populate := ⟨c.startId, 0, 0, [], [], []⟩
  have hsome : sm.functionRecords[r.funcIdx.toNat]? = some ⟨0, 0, 0, 0⟩ := by
    rw [List.getElem?_replicate, if_pos hlt]
  have hua : ∀ a, getFuncUnwindData a [⟨0, 0, 0⟩] = some ⟨0, 0, 0⟩ := by
    intro a
    unfold getFuncUnwindData getFuncUnwindLoop
    simp
  have hpop : ∃ site st', populateRecord c.arch [⟨0, 0, 0⟩] sm st r = .ok st' ∧ st'.sites = [site] ∧
      site.liveOffset = 0 ∧ site.archLiveOffset = 0 := by
    unfold populateRecord
    rw [hsome]
    dsimp only
    rw [hua]
    exact ⟨_, _, rfl, rfl, rfl, rfl⟩
  obtain ⟨site, st', hpop, hsites, h1, h2⟩ := hpop
  exact ⟨r, site, ⟨hread, _, sm, st, st', List.length_replicate, rfl, hpop, hsites⟩, h1, h2⟩

/-- A record that reports an overflow has no function. -/
theorem ToolConsumes.encodes {c : CompiledSite} (h : ToolConsumes c) : overflows c.info = false := by
  by_contra hc
  rw [Bool.not_eq_false] at hc
  have hat := at_store (fun _ => 0) 0 (callsiteRecord c.mod c.info)
  obtain ⟨-, hfn, -⟩ := readRecord_overflow hc hat
  have hfits := c.fits
  refine h.index _ ⟨_, _, hat, rfl⟩ [] ⟨0, 0, 0, List.replicate c.mod.fnStackSize.length ⟨0, 0, 0, 0⟩, [], []⟩
    ⟨0, 0, 0, [], [], []⟩ List.length_replicate ?_
  rw [populateRecord_index, hfn, List.length_replicate]
  omega

theorem ToolConsumes.supports {c : CompiledSite} (h : ToolConsumes c) : ToolSupports c := by
  refine ⟨h.encodes, ?_⟩
  intro hid
  obtain ⟨r, site, hs, -⟩ := exists_createdFrom c h.encodes
  have hsite := h.id r site hs hid
  rw [hs.site_eq.1, (hs.read.decodes h.encodes).1, hid] at hsite
  exact hsite

theorem Consumable.supported {p : SitePair} (h : Consumable p) (hp : Plain p) : Supported p := by
  have hsrc := h.src.supports
  have hdest := h.dest.supports
  obtain ⟨rs, ss, hs, hs0, -⟩ := exists_createdFrom p.src hsrc.encodes
  obtain ⟨rd, sd, hd, hd0, hd1⟩ := exists_createdFrom p.dest hdest.encodes
  let src := recordCtx p.src.arch rs ss
  let st : Dst := ⟨recordCtx p.dest.arch rd sd, fun _ => 0⟩
  have hat : AtSite p rs rd src st := {
    srcArch := rfl
    destArch := rfl
    srcSite := hs
    destSite := hd
    srcLive := by
      rw [show src.cur.site.liveOffset = 0 from hs0]
      exact recordHandle_liveAt _ rs
    destLive := by
      rw [show st.ctx.cur.site.liveOffset = 0 from hd0]
      exact recordHandle_liveAt _ rd
    destArchLive := by
      intro t v hv
      rw [show st.ctx.cur.site.archLiveOffset = 0 from hd1, Nat.zero_add]
      exact hv
    act := rfl
    pos := Nat.one_pos
    stack := ⟨Nat.one_pos, Nat.le_refl 1⟩
    queue := fun f hf => absurd hf List.not_mem_nil }
  have hquiet : Quiet src st.ctx := ⟨Nat.le_refl 1, rfl, rfl, fun _ => rfl⟩
  have hends := rewriteFrame_supported hquiet rfl (hat.frameAt hsrc.encodes hdest.encodes)
    (by
      intro g hg w hw
      obtain ⟨q, hq, rfl⟩ := List.mem_map.mp hg
      exact hp.values q hq w (valueGroup_records p.dest.map q.2 ▸ hw))
    (by
      intro v hv
      obtain ⟨q, hq, rfl⟩ := List.mem_map.mp hv
      exact hp.arch q hq) false
  have hno := h.rewrite rs rd src st false hat
  cases hr : rewriteFrame src false st with
  | error e =>
    rw [hr] at hends
    cases e with
    | stErr code fmt args => exact absurd hr (hno code fmt args)
    | outOfBounds => cases hends
    | undefined => cases hends
    | hang => cases hends
  | ok st' =>
    rw [hr] at hends
    obtain ⟨hvals, harch⟩ := hends
    refine ⟨hsrc, hdest, ?_, fun v hv => harch _ (List.mem_map_of_mem hv)⟩
    intro q hq w hw
    exact hvals _ (List.mem_map_of_mem hq) w ((valueGroup_records p.dest.map q.2).symm ▸ hw)

end Popcorn.Runtime
