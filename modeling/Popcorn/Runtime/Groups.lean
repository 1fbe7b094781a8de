/-
  Popcorn.Runtime.Groups — the records of a frame, value by value.

  The live values of a call site are a run of records in which a value's first record is
  followed by its duplicates. The loops of `rewrite_frame` and `fixup_local_pointers` find
  the values by skipping duplicates on both sides: they are the walks of `Lib.Lockstep` over
  the two tables (`rewriteVals_eq`, `localSearch_find`). Where the two sites list the same
  number of values they walk the groups in step (`rewriteVals_groups`, `localSearch_groups`).
-/

import Popcorn.Lib.Lockstep
import Popcorn.Runtime.Writes

namespace Popcorn.Runtime

open Popcorn.Lib Popcorn.Metadata

/-! ## Groups of records -/

/-- The records of one value. -/
structure Group where
  first : LiveValue
  dups : List LiveValue
  first_not_dup : first.isDuplicate = false
  dups_dup : ∀ d ∈ dups, d.isDuplicate = true

def Group.records (g : Group) : List LiveValue := g.first :: g.dups

/-- The records `recs` stand in the live-value section from index `i` on. -/
def RecordsAt (h : Handle) (i : Nat) (recs : List LiveValue) : Prop := ∀ t v, recs[t]? = some v → h.liveVals (i + t) = v

theorem RecordsAt.cons {h : Handle} {i : Nat} {v : LiveValue} {recs : List LiveValue} (hr : RecordsAt h i (v :: recs)) :
    h.liveVals i = v ∧ RecordsAt h (i + 1) recs := by
  constructor
  · exact hr 0 v rfl
  · intro t w hw
    rw [Nat.add_assoc, Nat.add_comm 1]
    exact hr (t + 1) w hw

theorem RecordsAt.append {h : Handle} {i : Nat} {recs recs' : List LiveValue} (hr : RecordsAt h i (recs ++ recs')) :
    RecordsAt h i recs ∧ RecordsAt h (i + recs.length) recs' := by
  constructor
  · intro t v hv
    exact hr t v (by rw [List.getElem?_append_left (List.getElem?_eq_some_iff.mp hv).1]; exact hv)
  · intro t v hv
    rw [Nat.add_assoc]
    exact hr (recs.length + t) v (by rw [List.getElem?_append_right (Nat.le_add_right _ _), Nat.add_sub_cancel_left]; exact hv)

/-- The groups `gs` stand in the section from index `i` on, and no duplicate follows them. -/
structure GroupsAt (h : Handle) (i : Nat) (gs : List Group) : Prop where
  records : RecordsAt h i (gs.flatMap Group.records)
  inside : i + (gs.flatMap Group.records).length ≤ h.liveValsCount
  ends : (h.liveVals (i + (gs.flatMap Group.records).length)).isDuplicate = false

/-- The first group is followed by the others. -/
theorem GroupsAt.next {h : Handle} {i : Nat} {g : Group} {gs : List Group} (hg : GroupsAt h i (g :: gs)) :
    GroupsAt h (i + g.records.length) gs := by
  obtain ⟨hr, hin, hend⟩ := hg
  rw [List.flatMap_cons] at hr
  rw [List.flatMap_cons, List.length_append, ← Nat.add_assoc] at hin hend
  exact ⟨hr.append.2, hin, hend⟩

theorem GroupsAt.first {h : Handle} {i : Nat} {g : Group} {gs : List Group} (hg : GroupsAt h i (g :: gs)) :
    h.liveVals i = g.first ∧ RecordsAt h (i + 1) g.dups := by
  have hr := hg.records
  rw [List.flatMap_cons] at hr
  exact hr.append.1.cons

theorem Group.records_length (g : Group) : g.records.length = g.dups.length + 1 := rfl

/-! ## Groups as chunks -/

def Group.chunk (g : Group) : Chunk LiveValue := (g.first, g.dups)

/-- The tables of a walk are read one record past their end. -/
theorem liveValAt_ok {h : Handle} {i : Nat} (hi : i ≤ h.liveValsCount) : liveValAt h i = .ok (h.liveVals i) := if_pos hi

theorem chunksEnd_groups (gs : List Group) : ∀ i, chunksEnd i (gs.map Group.chunk) = i + (gs.flatMap Group.records).length := by
  induction gs with
  | nil => exact fun _ => rfl
  | cons g gs ih =>
    intro i
    rw [List.flatMap_cons, List.length_append, g.records_length, Nat.add_comm g.dups.length, ← Nat.add_assoc, ← Nat.add_assoc]
    exact ih (i + 1 + g.dups.length)

/-- A reader of the groups' records finds them as chunks. -/
theorem RecordsAt.chunks {h : Handle} {read : Nat → Except Fault LiveValue} (gs : List Group) : ∀ {i : Nat},
    RecordsAt h i (gs.flatMap Group.records) →
    (∀ k, k < i + (gs.flatMap Group.records).length → read k = .ok (h.liveVals k)) →
    ChunksAt read LiveValue.isDuplicate i (gs.map Group.chunk) := by
  induction gs with
  | nil => exact fun _ _ => trivial
  | cons g gs ih =>
    intro i hr hread
    rw [List.flatMap_cons] at hr hread
    rw [List.length_append, ← Nat.add_assoc] at hread
    obtain ⟨hfirst, hdups⟩ := hr.append.1.cons
    have hlen := g.records_length
    have hnext : i + g.records.length = i + 1 + g.dups.length := by omega
    refine ⟨⟨?_, g.first_not_dup, ?_⟩, ?_⟩
    · rw [hread i (by omega), hfirst]
      rfl
    · intro t d hd
      have ht : t < g.dups.length := (List.getElem?_eq_some_iff.mp hd).1
      refine ⟨?_, g.dups_dup d (List.mem_of_getElem? hd)⟩
      rw [hread (i + 1 + t) (by omega), hdups t d hd]
    · rw [hnext] at hread
      exact ih (hnext ▸ hr.append.2) hread

theorem GroupsAt.chunks {h : Handle} {gs : List Group} {i : Nat} (hg : GroupsAt h i gs) :
    ChunksAt (liveValAt h) LiveValue.isDuplicate i (gs.map Group.chunk) := by
  apply hg.records.chunks gs
  intro k hk
  have := hg.inside
  exact liveValAt_ok (by omega)

theorem GroupsAt.fresh {h : Handle} {i : Nat} {gs : List Group} (hg : GroupsAt h i gs) :
    FirstAt (liveValAt h) LiveValue.isDuplicate (i + (gs.flatMap Group.records).length) :=
  ⟨_, liveValAt_ok hg.inside, hg.ends⟩

/-- No group is longer than the section. -/
theorem dups_lt {h : Handle} {i : Nat} {gs : List Group} (hin : i + (gs.flatMap Group.records).length ≤ h.liveValsCount) {g : Group}
    (hmem : g ∈ gs) : g.dups.length < sectionFuel h := by
  have hle : g.records.length ≤ (gs.flatMap Group.records).length := by
    obtain ⟨pre, post, rfl⟩ := List.append_of_mem hmem
    rw [List.flatMap_append, List.flatMap_cons, List.length_append, List.length_append]
    omega
  rw [g.records_length] at hle
  unfold sectionFuel
  omega

theorem skipDuplicates_eq (h : Handle) : ∀ fuel i,
    skipDuplicates h fuel i = skipDups (liveValAt h) LiveValue.isDuplicate .outOfBounds fuel i := by
  intro fuel
  induction fuel with
  | zero => exact fun _ => rfl
  | succ fuel ih =>
    intro i
    unfold skipDuplicates skipDups
    simp only [ih]

/-! ## The values of a frame -/

/-- One record of the destination. -/
def rewriteOne (src : Ctx) (i : Nat) (s : Bool × Dst) (w : LiveValue) : Except Fault (Bool × Dst) := do
  let (b, st) ← rewriteVal src i s.2 w
  pure (s.1 || b, st)

/-- The loop of `rewrite_frame` over groups: the destination's records of each value, from the
    source record `i` on. -/
def rewriteGroups (src : Ctx) : Nat → List (Group × Group) → Bool × Dst → Except Fault (Bool × Dst)
  | _, [], s => .ok s
  | i, g :: gs, s => do
    let s ← g.2.records.foldlM (rewriteOne src i) s
    rewriteGroups src (i + g.1.records.length) gs s

theorem rewriteVal_same {src : Ctx} {i : Nat} {st st' : Dst} {w : LiveValue} {b : Bool} (h : rewriteVal src i st w = .ok (b, st')) :
    SameFrames st.ctx st'.ctx :=
  rewriteVal_rule (P := fun s => SameFrames st.ctx s.ctx) (fun s l c bs hs => hs.trans (writeBoth_same s l c bs))
    (fun s fs hs => hs.trans (setFixups_same s fs)) h (SameFrames.refl st.ctx)

theorem rewriteOne_same {src : Ctx} {i : Nat} {s s' : Bool × Dst} {w : LiveValue} (h : rewriteOne src i s w = .ok s') :
    SameFrames s.2.ctx s'.2.ctx := by
  obtain ⟨⟨b, st⟩, h1, h2⟩ := bind_ok.mp h
  cases h2
  exact rewriteVal_same h1

/-- The visits keep the handle, so the loops walk two tables. -/
theorem rewriteDuplicates_eq (src : Ctx) (i : Nat) {hd : Handle} : ∀ {fuel j : Nat} {s : Bool × Dst}, s.2.ctx.handle = hd →
    rewriteDuplicates src i fuel j s =
      eachDup (liveValAt hd) LiveValue.isDuplicate .outOfBounds (rewriteOne src i) fuel j s := by
  intro fuel
  induction fuel with
  | zero => exact fun _ => rfl
  | succ fuel ih =>
    intro j s hh
    obtain ⟨needs, st⟩ := s
    unfold rewriteDuplicates eachDup
    rw [show st.ctx.handle = hd from hh]
    cases liveValAt hd (j + 1) with
    | error e => rfl
    | ok w =>
      show (if w.isDuplicate = true then _ else _) = (if w.isDuplicate = true then _ else _)
      split
      · rw [rewriteOne]
        cases hv : rewriteVal src i st w with
        | error e => rfl
        | ok p => exact ih (s := (needs || p.1, p.2)) ((rewriteVal_same hv).handle.trans hh)
      · rfl

theorem eachDup_same {src : Ctx} {i : Nat} {read : Nat → Except Fault LiveValue} : ∀ {fuel j : Nat} {s : Bool × Dst} {r : Nat × Bool × Dst},
    eachDup read LiveValue.isDuplicate .outOfBounds (rewriteOne src i) fuel j s = .ok r → SameFrames s.2.ctx r.2.2.ctx := by
  intro fuel
  induction fuel with
  | zero => intro j s r h; cases h
  | succ fuel ih =>
    intro j s r h
    unfold eachDup at h
    obtain ⟨w, -, h⟩ := bind_ok.mp h
    split at h
    · obtain ⟨s1, hone, h⟩ := bind_ok.mp h
      exact (rewriteOne_same hone).trans (ih h)
    · cases h
      exact SameFrames.refl _

theorem rewriteVals_eq (src : Ctx) {hd : Handle} {site : CallSite} : ∀ {fuel i j : Nat} {s : Bool × Dst}, s.2.ctx.handle = hd →
    s.2.ctx.cur.site = site → rewriteVals src fuel i j s =
      (lockstep (liveValAt src.handle) (liveValAt hd) LiveValue.isDuplicate .outOfBounds (sectionFuel src.handle) (sectionFuel hd)
        (site.liveOffset + site.numLive.toNat) (rewriteOne src) fuel i j s).map fun r => r.2.2 := by
  intro fuel
  induction fuel with
  | zero => exact fun _ _ => rfl
  | succ fuel ih =>
    intro i j s hh hsite
    obtain ⟨needs, st⟩ := s
    have hh' : st.ctx.handle = hd := hh
    unfold rewriteVals lockstep
    rw [show st.ctx.cur.site = site from hsite]
    split
    · cases liveValAt src.handle i with
      | error e => rfl
      | ok v =>
        rw [hh']
        cases liveValAt hd j with
        | error e => rfl
        | ok w =>
          show (rewriteVal src i st w >>= _) = ((rewriteOne src i (needs, st) w >>= _) : Except Fault _).map _
          rw [rewriteOne]
          cases hv : rewriteVal src i st w with
          | error e => rfl
          | ok p =>
            have hs1 := rewriteVal_same hv
            have hp : p.2.ctx.handle = hd := hs1.handle.trans hh'
            show (rewriteDuplicates src i (sectionFuel p.2.ctx.handle) j (needs || p.1, p.2) >>= _) =
              ((eachDup (liveValAt hd) LiveValue.isDuplicate .outOfBounds (rewriteOne src i) (sectionFuel hd) j (needs || p.1, p.2)
                >>= _) : Except Fault _).map _
            rw [hp, rewriteDuplicates_eq src i (s := (needs || p.1, p.2)) hp]
            cases hd' : eachDup (liveValAt hd) LiveValue.isDuplicate .outOfBounds (rewriteOne src i) (sectionFuel hd) j
                (needs || p.1, p.2) with
            | error e => rfl
            | ok r =>
              have hs2 := hs1.trans (eachDup_same (s := (needs || p.1, p.2)) hd')
              show (skipDuplicates src.handle (sectionFuel src.handle) i >>= _) =
                ((skipDups (liveValAt src.handle) LiveValue.isDuplicate .outOfBounds (sectionFuel src.handle) i >>= _) :
                  Except Fault _).map _
              rw [skipDuplicates_eq]
              cases skipDups (liveValAt src.handle) LiveValue.isDuplicate .outOfBounds (sectionFuel src.handle) i with
              | error e => rfl
              | ok i' => exact ih (s := r.2) (hs2.handle.trans hh') (hs2.curSite.trans hsite)
    · rfl

theorem visitChunks_groups (src : Ctx) (gs : List (Group × Group)) : ∀ (i : Nat) (s : Bool × Dst),
    visitChunks (rewriteOne src) i (gs.map fun g => (g.1.chunk, g.2.chunk)) s = rewriteGroups src i gs s := by
  induction gs with
  | nil => exact fun _ _ => rfl
  | cons g gs ih =>
    intro i s
    rw [List.map_cons]
    unfold visitChunks rewriteGroups
    simp only [ih]
    rw [g.1.records_length, Nat.add_assoc, Nat.add_comm 1]
    rfl

theorem chunks_fst (gs : List (Group × Group)) :
    (gs.map fun g => (g.1.chunk, g.2.chunk)).map Prod.fst = (gs.map Prod.fst).map Group.chunk := by
  rw [List.map_map, List.map_map]
  rfl

theorem chunks_snd (gs : List (Group × Group)) :
    (gs.map fun g => (g.1.chunk, g.2.chunk)).map Prod.snd = (gs.map Prod.snd).map Group.chunk := by
  rw [List.map_map, List.map_map]
  rfl

theorem GroupsAt.inStep {hs hd : Handle} {gs : List (Group × Group)} {i j last : Nat} (hi : GroupsAt hs i (gs.map Prod.fst))
    (hj : GroupsAt hd j (gs.map Prod.snd)) (hlen : j + ((gs.map Prod.snd).flatMap Group.records).length = last) :
    InStep (liveValAt hs) (liveValAt hd) LiveValue.isDuplicate (sectionFuel hs) (sectionFuel hd) last i j
      (gs.map fun g => (g.1.chunk, g.2.chunk)) := by
  have hci := hi.chunks
  have hei := chunksEnd_groups (gs.map Prod.fst) i
  have hcj := hj.chunks
  have hej := chunksEnd_groups (gs.map Prod.snd) j
  rw [← chunks_fst] at hci hei
  rw [← chunks_snd] at hcj hej
  refine ⟨hci, hcj, hej.trans hlen, ?_, ?_⟩
  · intro _
    rw [hei, ← hlen]
    exact ⟨hi.fresh, hj.fresh⟩
  · intro c hc
    obtain ⟨g, hg, rfl⟩ := List.mem_map.mp hc
    exact ⟨dups_lt hi.inside (List.mem_map_of_mem hg), dups_lt hj.inside (List.mem_map_of_mem hg)⟩

/-- Where the two sites list the same number of values, the loop walks them in step. -/
theorem rewriteVals_groups {src : Ctx} {hd : Handle} {site : CallSite} (gs : List (Group × Group)) {fuel i j : Nat} {s : Bool × Dst}
    (hh : s.2.ctx.handle = hd) (hsite : s.2.ctx.cur.site = site) (hi : GroupsAt src.handle i (gs.map Prod.fst))
    (hj : GroupsAt hd j (gs.map Prod.snd))
    (hlen : j + ((gs.map Prod.snd).flatMap Group.records).length = site.liveOffset + site.numLive.toNat) (hfuel : gs.length ≤ fuel) :
    rewriteVals src fuel i j s = rewriteGroups src i gs s := by
  rw [rewriteVals_eq src hh hsite, lockstep_chunks _ (hi.inStep hj hlen) (by rw [List.length_map]; exact hfuel), visitChunks_groups]
  cases rewriteGroups src i gs s <;> rfl

/-! ## The search for an alloca -/

/-- The search of `fixup_local_pointers` over groups. -/
def searchGroups (src dest : Ctx) (ptr : Nat) : List (Group × Group) → Except Fault Nat
  | [] => .ok 0
  | g :: gs =>
    if g.1.first.isAlloca && g.2.first.isAlloca then do
      let addr ← pointsToData src g.1.first dest g.2.first ptr
      if addr ≠ 0 then pure addr else searchGroups src dest ptr gs
    else searchGroups src dest ptr gs

/-- The test of two records. -/
def searchTest (src dest : Ctx) (ptr : Nat) (v w : LiveValue) : Except Fault (Option Nat) :=
  if v.isAlloca && w.isAlloca then do
    let addr ← pointsToData src v dest w ptr
    pure (if addr ≠ 0 then some addr else none)
  else pure none

theorem orNext_searchTest (src dest : Ctx) (ptr : Nat) (v w : LiveValue) (rest : Except Fault (Option Nat)) :
    (orNext (searchTest src dest ptr v w) rest).map (fun r => r.getD 0) =
      if v.isAlloca && w.isAlloca then do
        let addr ← pointsToData src v dest w ptr
        if addr ≠ 0 then pure addr else rest.map fun r => r.getD 0
      else rest.map fun r => r.getD 0 := by
  unfold searchTest
  split
  · cases pointsToData src v dest w ptr with
    | error e => rfl
    | ok addr =>
      show Except.map _ (orNext (pure (if addr ≠ 0 then some addr else none)) rest) = if addr ≠ 0 then _ else _
      split
      · rfl
      · rfl
  · rfl

theorem localSearch_find (src dest : Ctx) (ptr : Nat) : ∀ fuel i j, localSearch src dest ptr fuel i j =
    (lockfind (liveValAt src.handle) (liveValAt dest.handle) LiveValue.isDuplicate .outOfBounds (sectionFuel src.handle)
      (sectionFuel dest.handle) (dest.cur.site.liveOffset + dest.cur.site.numLive.toNat) (searchTest src dest ptr) fuel i j).map
        fun r => r.getD 0 := by
  intro fuel
  induction fuel with
  | zero => exact fun _ _ => rfl
  | succ fuel ih =>
    intro i j
    unfold localSearch lockfind
    simp only [ih, skipDuplicates_eq]
    split
    · cases liveValAt src.handle i with
      | error e => rfl
      | ok v =>
        cases liveValAt dest.handle j with
        | error e => rfl
        | ok w =>
          cases skipDups (liveValAt src.handle) LiveValue.isDuplicate .outOfBounds (sectionFuel src.handle) i with
          | error e => rfl
          | ok i' =>
            cases skipDups (liveValAt dest.handle) LiveValue.isDuplicate .outOfBounds (sectionFuel dest.handle) j with
            | error e => rfl
            | ok j' =>
              exact (orNext_searchTest src dest ptr v w _).symm
    · rfl

theorem findChunk_groups (src dest : Ctx) (ptr : Nat) (gs : List (Group × Group)) :
    (findChunk (searchTest src dest ptr) (gs.map fun g => (g.1.chunk, g.2.chunk))).map (fun r => r.getD 0) =
      searchGroups src dest ptr gs := by
  induction gs with
  | nil => rfl
  | cons g gs ih =>
    rw [List.map_cons]
    unfold findChunk searchGroups
    rw [← ih]
    exact orNext_searchTest src dest ptr g.1.first g.2.first _

theorem localSearch_groups {src dest : Ctx} {ptr : Nat} (gs : List (Group × Group)) {fuel i j : Nat}
    (hi : GroupsAt src.handle i (gs.map Prod.fst)) (hj : GroupsAt dest.handle j (gs.map Prod.snd))
    (hlen : j + ((gs.map Prod.snd).flatMap Group.records).length = dest.cur.site.liveOffset + dest.cur.site.numLive.toNat)
    (hfuel : gs.length ≤ fuel) : localSearch src dest ptr fuel i j = searchGroups src dest ptr gs := by
  rw [localSearch_find, lockfind_chunks _ (hi.inStep hj hlen) (by rw [List.length_map]; exact hfuel), findChunk_groups]

end Popcorn.Runtime
