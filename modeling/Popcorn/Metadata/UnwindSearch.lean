/-
  Popcorn.Metadata.UnwindSearch — the two interval searches, read by read
  (tool/stack_metadata/src/util.c, lib/stack_transformation/src/util.c).

  gen-stackinfo's `get_func_unwind_data` and the runtime's `get_unwind_offset_by_addr` find
  the function around an address in the table of function starts. Here every access of the
  table is checked, and a loop that has not ended after `rounds` rounds is a fault of its
  own. `getFuncUnwindData` is the value the checked search returns.

  Proved:
  - `funcUnwindRounds_ok`: over a table in strictly ascending order the tool's search does
    not fault, and by `unwindOffsetRounds_eq` neither does the runtime's.
  - `interval_searches_agree`: both find the entry with the greatest start not above the
    address, and nothing exactly when there is none.
-/

import Popcorn.Metadata.Lookup

namespace Popcorn.Metadata

open Popcorn.Lib

/-! ## Model -/

inductive SearchFault where
  /-- An access outside the table. -/
  | outside (idx : Int)
  /-- The loop has not ended. -/
  | spins
  deriving DecidableEq, Repr

/-- `addrs[idx]`. -/
def unwindAddrAt (addrs : List UnwindAddr) (idx : Int) : Except SearchFault UnwindAddr :=
  if idx < 0 then .error (.outside idx)
  else
    match addrs[idx.toNat]? with
    | some ua => .ok ua
    | none => .error (.outside idx)

/-- `IN_RANGE`; the second entry is read only if the first is not above the address. -/
def inRangeAt (addrs : List UnwindAddr) (idx : Int) (addr : UInt64) : Except SearchFault Bool := do
  let lo ← unwindAddrAt addrs idx
  if lo.addr ≤ addr then
    let hi ← unwindAddrAt addrs (idx + 1)
    pure (decide (addr < hi.addr))
  else pure false

/-- The loop of `get_func_unwind_data`; none is NULL. -/
def funcUnwindRounds (addr : UInt64) (addrs : List UnwindAddr) : Nat → Int → Int → Except SearchFault (Option UnwindAddr)
  | 0, _, _ => .error .spins
  | rounds + 1, min, max =>
    if max ≥ min then do
      let mid := (max + min) / 2
      -- the last record is always a stopping condition
      if mid = (addrs.length : Int) - 1 then
        let ua ← unwindAddrAt addrs mid
        if ua.addr ≤ addr then pure (some ua) else pure none
      else if ← inRangeAt addrs mid addr then
        let ua ← unwindAddrAt addrs mid
        pure (some ua)
      else
        let ua ← unwindAddrAt addrs mid
        if addr > ua.addr then funcUnwindRounds addr addrs rounds (mid + 1) max
        else funcUnwindRounds addr addrs rounds min (mid - 1)
    else .ok none

/-- The loop of `get_unwind_offset_by_addr`: `found` and what `*meta` holds at its end. -/
def unwindOffsetRounds (h : Handle) (addrInt : UInt64) (meta0 : UnwindAddr) :
    Nat → Int → Int → Except SearchFault (Bool × UnwindAddr)
  | 0, _, _ => .error .spins
  | rounds + 1, min, max =>
    if max ≥ min then do
      let mid := (max + min) / 2
      if mid = (h.unwindAddrs.length : Int) - 1 then
        let ua ← unwindAddrAt h.unwindAddrs mid
        if ua.addr ≤ addrInt then pure (true, ua) else pure (false, meta0)
      else if ← inRangeAt h.unwindAddrs mid addrInt then
        let ua ← unwindAddrAt h.unwindAddrs mid
        pure (true, ua)
      else
        let ua ← unwindAddrAt h.unwindAddrs mid
        if addrInt > ua.addr then unwindOffsetRounds h addrInt meta0 rounds (mid + 1) max
        else unwindOffsetRounds h addrInt meta0 rounds min (mid - 1)
    else .ok (false, meta0)

/-- No window is wider than the table, and each round narrows it. -/
def searchRounds (addrs : List UnwindAddr) : Nat := addrs.length + 1

/-- `get_func_unwind_data`. -/
def checkedFuncUnwindData (addr : UInt64) (addrs : List UnwindAddr) : Except SearchFault (Option UnwindAddr) :=
  funcUnwindRounds addr addrs (searchRounds addrs) 0 ((addrs.length : Int) - 1)

/-- `get_unwind_offset_by_addr`. -/
def checkedUnwindOffsetByAddr (h : Handle) (addr : UInt64) (meta0 : UnwindAddr) : Except SearchFault (Bool × UnwindAddr) :=
  unwindOffsetRounds h addr meta0 (searchRounds h.unwindAddrs) 0 ((h.unwindAddrs.length : Int) - 1)

/-! ## Accesses -/

/-- The start of a record, as the key of the search. -/
def startAt (addrs : List UnwindAddr) (i : Nat) : Nat := (addrs.getD i ⟨0, 0, 0⟩).addr.toNat

section
variable {addrs : List UnwindAddr} {addr : UInt64} {min max mid : Int}

theorem startAt_eq {i : Nat} {ua : UnwindAddr} (h : addrs[i]? = some ua) : startAt addrs i = ua.addr.toNat := by
  obtain ⟨hlt, rfl⟩ := List.getElem?_eq_some_iff.mp h
  unfold startAt
  rw [List.getD_eq_getElem _ _ hlt]

theorem unwindAddrAt_ok (addrs : List UnwindAddr) {idx : Int} (h0 : 0 ≤ idx) (h1 : idx < addrs.length) :
    ∃ ua, unwindAddrAt addrs idx = .ok ua ∧ addrs[idx.toNat]? = some ua := by
  have hlt : idx.toNat < addrs.length := by omega
  refine ⟨addrs[idx.toNat], ?_, List.getElem?_eq_getElem hlt⟩
  unfold unwindAddrAt
  rw [if_neg (by omega), List.getElem?_eq_getElem hlt]

/-- A record that is not the last one, and the next. -/
theorem inRangeAt_ok (addr : UInt64) (hs : addrs.Pairwise fun a b => a.addr < b.addr) {idx : Int} (h0 : 0 ≤ idx) (h1 : idx + 1 < addrs.length) :
    ∃ lo hi, addrs[idx.toNat]? = some lo ∧ addrs[idx.toNat + 1]? = some hi ∧ lo.addr < hi.addr ∧
      inRangeAt addrs idx addr = .ok (inRange addrs idx.toNat addr) ∧
      (inRange addrs idx.toNat addr = true ↔ lo.addr ≤ addr ∧ addr < hi.addr) := by
  obtain ⟨lo, hread, hlo⟩ := unwindAddrAt_ok addrs h0 (by omega)
  obtain ⟨hi, hread', hhi⟩ := unwindAddrAt_ok addrs (show 0 ≤ idx + 1 by omega) h1
  rw [show (idx + 1).toNat = idx.toNat + 1 by omega] at hhi
  refine ⟨lo, hi, hlo, hhi, ?_, ?_, ?_⟩
  · obtain ⟨_, rfl⟩ := List.getElem?_eq_some_iff.mp hlo
    obtain ⟨_, rfl⟩ := List.getElem?_eq_some_iff.mp hhi
    exact List.pairwise_iff_getElem.mp hs _ _ _ _ (Nat.lt_succ_self _)
  · unfold inRangeAt inRange
    simp only [hread, hlo, hhi]
    show (if lo.addr ≤ addr then _ else _) = _
    by_cases hle : lo.addr ≤ addr
    · rw [if_pos hle, hread', decide_eq_true hle]
      rfl
    · rw [if_neg hle, decide_eq_false hle]
      rfl
  · unfold inRange
    simp only [hlo, hhi, Bool.and_eq_true, decide_eq_true_eq]

theorem startAt_ascending (hs : addrs.Pairwise fun a b => a.addr < b.addr) : Ascending addrs.length (startAt addrs) :=
  ascending_of_pairwise (fun ua : UnwindAddr => ua.addr.toNat) (hs.imp UInt64.lt_iff_toNat_lt.mp)

/-- `r` is the record with the greatest start not above the address. -/
def FloorOf (addrs : List UnwindAddr) (addr : UInt64) : Option UnwindAddr → Prop
  | none => ∀ ua ∈ addrs, addr < ua.addr
  | some ua => ua ∈ addrs ∧ ua.addr ≤ addr ∧ ∀ ub ∈ addrs, ub.addr ≤ addr → ub.addr ≤ ua.addr

theorem floorOf_none (h : ∀ i < addrs.length, addr.toNat < startAt addrs i) : FloorOf addrs addr none := by
  intro ua hua
  obtain ⟨i, hi, rfl⟩ := List.getElem_of_mem hua
  have := h i hi
  unfold startAt at this
  rw [List.getD_eq_getElem _ _ hi] at this
  exact UInt64.lt_iff_toNat_lt.mpr this

/-- A record not above the address is the floor if it is the last one or the next is above. -/
theorem floorOf_some (hs : addrs.Pairwise fun a b => a.addr < b.addr) {i : Nat} {ua : UnwindAddr} (hi : addrs[i]? = some ua)
    (hle : ua.addr ≤ addr) (hnext : ∀ ub, addrs[i + 1]? = some ub → addr < ub.addr) : FloorOf addrs addr (some ua) := by
  refine ⟨List.mem_of_getElem? hi, hle, ?_⟩
  intro ub hub hub'
  obtain ⟨j, hj, rfl⟩ := List.getElem_of_mem hub
  obtain ⟨hlt, rfl⟩ := List.getElem?_eq_some_iff.mp hi
  have hpw := List.pairwise_iff_getElem.mp hs
  rcases Nat.lt_trichotomy j i with hji | rfl | hij
  · exact UInt64.le_of_lt (hpw j i hj hlt hji)
  · exact UInt64.le_refl _
  · have h1 := hnext _ (List.getElem?_eq_getElem (by omega))
    have h2 : addrs[i + 1].addr ≤ addrs[j].addr := by
      rcases Nat.lt_or_eq_of_le (show i + 1 ≤ j from hij) with h | rfl
      · exact UInt64.le_of_lt (hpw (i + 1) j (by omega) hj h)
      · exact UInt64.le_refl _
    exact absurd (UInt64.lt_of_lt_of_le h1 h2) (UInt64.not_lt.mpr hub')

theorem FloorOf.unique (hs : addrs.Pairwise fun a b => a.addr < b.addr) {r r' : Option UnwindAddr} (h : FloorOf addrs addr r)
    (h' : FloorOf addrs addr r') : r = r' := by
  cases r with
  | none =>
    cases r' with
    | none => rfl
    | some ua => exact absurd (h ua h'.1) (UInt64.not_lt.mpr h'.2.1)
  | some ua =>
    cases r' with
    | none => exact absurd (h' ua h.1) (UInt64.not_lt.mpr h.2.1)
    | some ub =>
      have hle := h.2.2 ub h'.1 h'.2.1
      have hge := h'.2.2 ua h.1 h.2.1
      obtain ⟨i, hi, rfl⟩ := List.getElem_of_mem h.1
      obtain ⟨j, hj, rfl⟩ := List.getElem_of_mem h'.1
      have hpw := List.pairwise_iff_getElem.mp hs
      rcases Nat.lt_trichotomy i j with hij | rfl | hij
      · exact absurd hle (UInt64.not_le.mpr (hpw i j hi hj hij))
      · rfl
      · exact absurd hge (UInt64.not_le.mpr (hpw j i hj hi hij))

/-! ## The searches -/

/-- A search over a window of the table ends within its width, reads only the table, and finds
    the floor; so does the search that does not check. -/
theorem funcUnwindRounds_ok (hs : addrs.Pairwise fun a b => a.addr < b.addr) : ∀ (fuel : Nat) (min max : Int),
    Window addrs.length (startAt addrs) addr.toNat min max → max - min < fuel →
    ∃ r, funcUnwindRounds addr addrs (fuel + 1) min max = .ok r ∧ getFuncUnwindLoop addr addrs fuel min max = r ∧
      FloorOf addrs addr r := by
  have hasc := startAt_ascending hs
  intro fuel
  induction fuel with
  | zero =>
    intro min max hw hf
    refine ⟨none, ?_, rfl, floorOf_none (hw.empty hasc (by omega))⟩
    unfold funcUnwindRounds
    rw [if_neg (by omega)]
  | succ fuel ih =>
    intro min max hw hf
    have h0 := hw.nonneg
    have hlt := hw.lt
    unfold funcUnwindRounds getFuncUnwindLoop
    by_cases hle : max ≥ min
    · rw [if_pos hle, if_pos hle]
      obtain ⟨mid, hmid⟩ : ∃ mid, mid = (max + min) / 2 := ⟨_, rfl⟩
      rw [← hmid]
      obtain ⟨ua, hread, hget⟩ := unwindAddrAt_ok addrs (show 0 ≤ mid by omega) (by omega)
      simp only [hget, hread]
      by_cases hlast : mid = (addrs.length : Int) - 1
      · rw [if_pos hlast, if_pos (by omega)]
        by_cases hua : ua.addr ≤ addr
        · refine ⟨some ua, ?_, if_pos hua, floorOf_some hs hget hua ?_⟩
          · show (if ua.addr ≤ addr then _ else _) = _
            rw [if_pos hua]
            rfl
          · intro ub hub
            have := (List.getElem?_eq_some_iff.mp hub).1
            omega
        · refine ⟨none, ?_, if_neg hua, floorOf_none ?_⟩
          · show (if ua.addr ≤ addr then _ else _) = _
            rw [if_neg hua]
            rfl
          · apply hw.last (by omega) (by omega) hmid (by omega)
            rw [startAt_eq hget]
            exact UInt64.lt_iff_toNat_lt.mp (UInt64.not_le.mp hua)
      · rw [if_neg hlast, if_neg (by omega)]
        obtain ⟨lo, hi, hlo, hhi, hlt', hrange, hin⟩ := inRangeAt_ok addr hs (show 0 ≤ mid by omega) (by omega)
        cases hget.symm.trans hlo
        rw [hrange]
        show ∃ r, (if inRange addrs mid.toNat addr = true then _ else _) = _ ∧ _
        by_cases hr : inRange addrs mid.toNat addr = true
        · rw [if_pos hr, if_pos hr]
          refine ⟨some ua, rfl, rfl, floorOf_some hs hget (hin.mp hr).1 ?_⟩
          intro ub hub
          cases hhi.symm.trans hub
          exact (hin.mp hr).2
        · rw [if_neg hr, if_neg hr]
          show ∃ r, (if addr > ua.addr then _ else _) = _ ∧ _
          rw [hin] at hr
          by_cases hgt : addr > ua.addr
          · rw [if_pos hgt, if_pos hgt, show ((mid.toNat : Int) + 1) = mid + 1 by omega]
            have hge : hi.addr ≤ addr := UInt64.not_lt.mp fun h => hr ⟨UInt64.le_of_lt hgt, h⟩
            apply ih _ _ (hw.goRight (by omega) (by omega) (by omega) ?_) (by omega)
            rw [show (mid + 1).toNat = mid.toNat + 1 by omega, startAt_eq hhi]
            exact UInt64.le_iff_toNat_le.mp hge
          · rw [if_neg hgt, if_neg hgt, show ((mid.toNat : Int) - 1) = mid - 1 by omega]
            -- an address at the start of a record is in its interval
            have hne : addr ≠ ua.addr := by
              rintro rfl
              exact hr ⟨UInt64.le_refl _, hlt'⟩
            apply ih _ _ (hw.goLeft (by omega) (by omega) ?_) (by omega)
            rw [startAt_eq hget]
            exact UInt64.lt_iff_toNat_lt.mp (UInt64.lt_of_le_of_ne (UInt64.not_lt.mp hgt) hne)
    · rw [if_neg hle, if_neg hle]
      exact ⟨none, rfl, rfl, floorOf_none (hw.empty hasc (by omega))⟩

theorem getFuncUnwindData_floor (hs : addrs.Pairwise fun a b => a.addr < b.addr) (addr : UInt64) :
    FloorOf addrs addr (getFuncUnwindData addr addrs) := by
  obtain ⟨r, -, hr, hfloor⟩ := funcUnwindRounds_ok hs addrs.length 0 _ (Window.start _ _ addr.toNat) (by omega)
  unfold getFuncUnwindData
  rw [hr]
  exact hfloor

/-- The runtime's search goes through the same rounds. -/
theorem unwindOffsetRounds_eq (h : Handle) (addr : UInt64) (meta0 : UnwindAddr) : ∀ (rounds : Nat) (min max : Int),
    unwindOffsetRounds h addr meta0 rounds min max =
      (funcUnwindRounds addr h.unwindAddrs rounds min max).map fun r => (r.isSome, r.getD meta0) := by
  intro rounds
  induction rounds with
  | zero => intro min max; rfl
  | succ rounds ih =>
    intro min max
    unfold unwindOffsetRounds funcUnwindRounds
    by_cases hle : max ≥ min
    · rw [if_pos hle, if_pos hle]
      dsimp only
      cases unwindAddrAt h.unwindAddrs ((max + min) / 2) with
      | error e =>
        split
        · rfl
        · cases inRangeAt h.unwindAddrs ((max + min) / 2) addr with
          | error e' => rfl
          | ok b => cases b <;> rfl
      | ok ua =>
        split
        · show (if ua.addr ≤ addr then _ else _) = Except.map _ (if ua.addr ≤ addr then _ else _)
          split <;> rfl
        · cases inRangeAt h.unwindAddrs ((max + min) / 2) addr with
          | error e => rfl
          | ok b =>
            cases b with
            | true => rfl
            | false =>
              show (if addr > ua.addr then _ else _) = Except.map _ (if addr > ua.addr then _ else _)
              split
              · exact ih _ _
              · exact ih _ _
    · rw [if_neg hle, if_neg hle]
      rfl

/-- Over every table of starts in strictly ascending order, the empty one included, the two
    searches end, read only the table, and return the same: nothing if the table is empty or
    the address is below the first start, and else the entry with the greatest start not above
    the address. -/
theorem interval_searches_agree (h : Handle) (hs : h.unwindAddrs.Pairwise fun a b => a.addr < b.addr) (addr : UInt64)
    (meta0 : UnwindAddr) : ∃ r, checkedFuncUnwindData addr h.unwindAddrs = .ok r ∧
      checkedUnwindOffsetByAddr h addr meta0 = .ok (r.isSome, r.getD meta0) ∧
      getFuncUnwindData addr h.unwindAddrs = r ∧ getUnwindOffsetByAddr h addr = r ∧
      (r = none ↔ h.unwindAddrs = [] ∨ ∃ first, h.unwindAddrs.head? = some first ∧ addr < first.addr) ∧
      ∀ ua, r = some ua → ua ∈ h.unwindAddrs ∧ ua.addr ≤ addr ∧ ∀ ub ∈ h.unwindAddrs, ub.addr ≤ addr → ub.addr ≤ ua.addr := by
  obtain ⟨r, hr, hr', hfloor⟩ := funcUnwindRounds_ok hs h.unwindAddrs.length 0 _ (Window.start _ _ addr.toNat) (by omega)
  refine ⟨r, hr, ?_, hr', hr', ?_, ?_⟩
  · unfold checkedUnwindOffsetByAddr
    rw [unwindOffsetRounds_eq]
    exact congrArg _ hr
  · constructor
    · rintro rfl
      cases hxs : h.unwindAddrs with
      | nil => exact .inl rfl
      | cons first rest => exact .inr ⟨first, rfl, hfloor first (hxs ▸ List.mem_cons_self)⟩
    · intro hnone
      apply FloorOf.unique hs hfloor
      obtain hnil | ⟨first, hfirst, hlt⟩ := hnone
      · intro ua hua
        rw [hnil] at hua
        cases hua
      · intro ua hua
        obtain ⟨rest, hxs⟩ : ∃ rest, h.unwindAddrs = first :: rest := List.head?_eq_some_iff.mp hfirst
        rw [hxs] at hua hs
        obtain rfl | hua := List.mem_cons.mp hua
        · exact hlt
        · exact UInt64.lt_trans hlt (List.rel_of_pairwise_cons hs hua)
  · rintro ua rfl
    exact hfloor

end

/-- A runtime with three functions. -/
def threeStarts : Handle where
  arch := .aarch64
  unwindAddrs := [⟨0x1000, 2, 0⟩, ⟨0x2000, 1, 2⟩, ⟨0x2400, 0, 3⟩]
  unwindLocs := []
  sitesId := []
  sitesAddr := []
  liveVals _ := ⟨false, false, false, false, 0, 0, 0, 0, 0⟩
  liveValsCount := 0
  archLiveVals := []
  sites_len := no_sites

theorem interval_searches_agree_threeStarts : checkedFuncUnwindData 0x2010 threeStarts.unwindAddrs = .ok (some ⟨0x2000, 1, 2⟩) ∧
    checkedUnwindOffsetByAddr threeStarts 0x2010 ⟨0, 0, 0⟩ = .ok (true, ⟨0x2000, 1, 2⟩) := by
  obtain ⟨r, h1, h2, h3, -⟩ := interval_searches_agree threeStarts (by decide) 0x2010 ⟨0, 0, 0⟩
  have hr : getFuncUnwindData 0x2010 threeStarts.unwindAddrs = some ⟨0x2000, 1, 2⟩ := by decide
  rw [hr] at h3
  subst h3
  exact ⟨h1, h2⟩

end Popcorn.Metadata
