/-
  Popcorn.Lib.Lockstep — two tables walked in step.

  In a table of records a value is a chunk: a first record and the duplicates after it. Two
  cursors walk two tables chunk by chunk; where a chunk ends is found by reading on until a
  record is no duplicate. `lockstep` visits every record of the second table's chunks with the
  place of the first table's, `lockfind` tests the first records until one test succeeds. A
  table is the way it is read, so the one that faults past its end is another table.

  Proved: over chunks that a first record follows, the walk visits each once and ends at the
  ends (`lockstep_chunks`), and the search finds what a search over the chunks does
  (`lockfind_chunks`); where the read past the last chunk fails, the walk does
  (`lockstep_fails`).
-/

import Popcorn.Lib.Run

namespace Popcorn.Lib

variable {ε α β σ : Type}

/-! ## The loops -/

/-- From a first record, the last record of its chunk. -/
def skipDups (read : Nat → Except ε α) (dup : α → Bool) (stop : ε) : Nat → Nat → Except ε Nat
  | 0, _ => .error stop
  | fuel + 1, i => do
    let v ← read (i + 1)
    if dup v then skipDups read dup stop fuel (i + 1) else pure i

/-- The same, visiting the duplicates. -/
def eachDup (read : Nat → Except ε α) (dup : α → Bool) (stop : ε) (visit : σ → α → Except ε σ) : Nat → Nat → σ → Except ε (Nat × σ)
  | 0, _, _ => .error stop
  | fuel + 1, j, s => do
    let w ← read (j + 1)
    if dup w then
      let s ← visit s w
      eachDup read dup stop visit fuel (j + 1) s
    else pure (j, s)

section
variable (rs rd : Nat → Except ε α) (dup : α → Bool) (stop : ε) (ms md last : Nat)

/-- The walk, until the second cursor is at `last`; the cursors and the state it ends with. -/
def lockstep (visit : Nat → σ → α → Except ε σ) : Nat → Nat → Nat → σ → Except ε (Nat × Nat × σ)
  | 0, i, j, s => .ok (i, j, s)
  | fuel + 1, i, j, s =>
    if j < last then do
      let _ ← rs i
      let w ← rd j
      let s ← visit i s w
      let (j', s) ← eachDup rd dup stop (visit i) md j s
      let i' ← skipDups rs dup stop ms i
      lockstep visit fuel (i' + 1) (j' + 1) s
    else .ok (i, j, s)

/-- The outcome of a test, or of what is left where the test does not succeed. -/
def orNext (test rest : Except ε (Option β)) : Except ε (Option β) := do
  match ← test with
  | some b => pure (some b)
  | none => rest

/-- The search for two first records whose test succeeds. -/
def lockfind (test : α → α → Except ε (Option β)) : Nat → Nat → Nat → Except ε (Option β)
  | 0, _, _ => .ok none
  | fuel + 1, i, j =>
    if j < last then do
      let v ← rs i
      let w ← rd j
      let i' ← skipDups rs dup stop ms i
      let j' ← skipDups rd dup stop md j
      orNext (test v w) (lockfind test fuel (i' + 1) (j' + 1))
    else .ok none

end

/-! ## Chunks -/

/-- A first record and its duplicates. -/
abbrev Chunk (α : Type) := α × List α

/-- The chunk is read from `i` on. -/
structure ChunkAt (read : Nat → Except ε α) (dup : α → Bool) (i : Nat) (g : Chunk α) : Prop where
  first : read i = .ok g.1
  fresh : dup g.1 = false
  rest : ∀ t d, g.2[t]? = some d → read (i + 1 + t) = .ok d ∧ dup d = true

def ChunksAt (read : Nat → Except ε α) (dup : α → Bool) : Nat → List (Chunk α) → Prop
  | _, [] => True
  | i, g :: gs => ChunkAt read dup i g ∧ ChunksAt read dup (i + 1 + g.2.length) gs

/-- Where the chunks end. -/
def chunksEnd : Nat → List (Chunk α) → Nat
  | i, [] => i
  | i, g :: gs => chunksEnd (i + 1 + g.2.length) gs

/-- No duplicate is read. -/
def FirstAt (read : Nat → Except ε α) (dup : α → Bool) (i : Nat) : Prop := ∃ v, read i = .ok v ∧ dup v = false

/-- The visits of a walk over chunks: all records of the second with the place of the first. -/
def visitChunks (visit : Nat → σ → α → Except ε σ) : Nat → List (Chunk α × Chunk α) → σ → Except ε σ
  | _, [], s => .ok s
  | i, g :: gs, s => do
    let s ← (g.2.1 :: g.2.2).foldlM (visit i) s
    visitChunks visit (i + 1 + g.1.2.length) gs s

def findChunk (test : α → α → Except ε (Option β)) : List (Chunk α × Chunk α) → Except ε (Option β)
  | [] => .ok none
  | g :: gs => orNext (test g.1.1 g.2.1) (findChunk test gs)

section
variable {read : Nat → Except ε α} {dup : α → Bool} {stop : ε}

/-- What follows chunks that are not the last is a first record. -/
theorem ChunksAt.next {i : Nat} {gs : List (Chunk α)} (h : ChunksAt read dup i gs) (hend : gs = [] → FirstAt read dup i) :
    FirstAt read dup i := by
  cases gs with
  | nil => exact hend rfl
  | cons g gs => exact ⟨g.1, h.1.first, h.1.fresh⟩

theorem skipDups_rest (ds : List α) : ∀ {fuel i : Nat}, (∀ t d, ds[t]? = some d → read (i + 1 + t) = .ok d ∧ dup d = true) →
    ds.length ≤ fuel → skipDups read dup stop fuel i = skipDups read dup stop (fuel - ds.length) (i + ds.length) := by
  induction ds with
  | nil => exact fun _ _ => rfl
  | cons d ds ih =>
    intro fuel i hrest hfuel
    obtain ⟨fuel, rfl⟩ : ∃ k, fuel = k + 1 := ⟨fuel - 1, by rw [List.length_cons] at hfuel; omega⟩
    rw [List.length_cons] at hfuel ⊢
    obtain ⟨hread, hdup⟩ := hrest 0 d rfl
    have hnext : ∀ t d', ds[t]? = some d' → read (i + 1 + 1 + t) = .ok d' ∧ dup d' = true := by
      intro t d' hd
      rw [Nat.add_assoc (i + 1), Nat.add_comm 1]
      exact hrest (t + 1) d' hd
    conv => lhs; unfold skipDups
    rw [show read (i + 1) = .ok d from hread]
    show (if dup d then _ else _) = _
    rw [if_pos hdup, ih hnext (by omega), Nat.add_sub_add_right, Nat.add_assoc, Nat.add_comm 1]

theorem eachDup_rest {visit : σ → α → Except ε σ} (ds : List α) : ∀ {fuel j : Nat} {s : σ},
    (∀ t d, ds[t]? = some d → read (j + 1 + t) = .ok d ∧ dup d = true) → ds.length ≤ fuel →
    eachDup read dup stop visit fuel j s = (do
      let s ← ds.foldlM visit s
      eachDup read dup stop visit (fuel - ds.length) (j + ds.length) s) := by
  induction ds with
  | nil => exact fun _ _ => rfl
  | cons d ds ih =>
    intro fuel j s hrest hfuel
    obtain ⟨fuel, rfl⟩ : ∃ k, fuel = k + 1 := ⟨fuel - 1, by rw [List.length_cons] at hfuel; omega⟩
    rw [List.length_cons] at hfuel ⊢
    obtain ⟨hread, hdup⟩ := hrest 0 d rfl
    have hnext : ∀ t d', ds[t]? = some d' → read (j + 1 + 1 + t) = .ok d' ∧ dup d' = true := by
      intro t d' hd
      rw [Nat.add_assoc (j + 1), Nat.add_comm 1]
      exact hrest (t + 1) d' hd
    conv => lhs; unfold eachDup
    rw [show read (j + 1) = .ok d from hread, List.foldlM_cons]
    show (if dup d then _ else _) = _
    rw [if_pos hdup]
    cases hv : visit s d with
    | error e => rfl
    | ok s' =>
      show eachDup read dup stop visit fuel (j + 1) s' = _
      rw [ih hnext (by omega), Nat.add_sub_add_right, Nat.add_assoc, Nat.add_comm 1]
      rfl

/-- The read past a chunk decides how the loops over it end. -/
theorem skipDups_ok {fuel i : Nat} {g : Chunk α} (h : ChunkAt read dup i g) (hend : FirstAt read dup (i + 1 + g.2.length))
    (hfuel : g.2.length < fuel) : skipDups read dup stop fuel i = .ok (i + g.2.length) := by
  obtain ⟨v, hv, hdup⟩ := hend
  obtain ⟨k, hk⟩ : ∃ k, fuel - g.2.length = k + 1 := ⟨fuel - g.2.length - 1, by omega⟩
  rw [skipDups_rest g.2 h.rest (Nat.le_of_lt hfuel), hk]
  unfold skipDups
  rw [show i + g.2.length + 1 = i + 1 + g.2.length by omega, hv]
  show (if dup v then _ else _) = _
  rw [hdup]
  rfl

theorem skipDups_error {fuel i : Nat} {e : ε} {g : Chunk α} (h : ChunkAt read dup i g) (hend : read (i + 1 + g.2.length) = .error e)
    (hfuel : g.2.length < fuel) : skipDups read dup stop fuel i = .error e := by
  obtain ⟨k, hk⟩ : ∃ k, fuel - g.2.length = k + 1 := ⟨fuel - g.2.length - 1, by omega⟩
  rw [skipDups_rest g.2 h.rest (Nat.le_of_lt hfuel), hk]
  unfold skipDups
  rw [show i + g.2.length + 1 = i + 1 + g.2.length by omega, hend]
  rfl

theorem eachDup_ok {visit : σ → α → Except ε σ} {fuel j : Nat} {s : σ} {g : Chunk α} (h : ChunkAt read dup j g)
    (hend : FirstAt read dup (j + 1 + g.2.length)) (hfuel : g.2.length < fuel) :
    eachDup read dup stop visit fuel j s = (do let s ← g.2.foldlM visit s; pure (j + g.2.length, s)) := by
  obtain ⟨v, hv, hdup⟩ := hend
  obtain ⟨k, hk⟩ : ∃ k, fuel - g.2.length = k + 1 := ⟨fuel - g.2.length - 1, by omega⟩
  have hlast : ∀ s, eachDup read dup stop visit (k + 1) (j + g.2.length) s = pure (j + g.2.length, s) := by
    intro s
    unfold eachDup
    rw [show j + g.2.length + 1 = j + 1 + g.2.length by omega, hv]
    show (if dup v then _ else _) = _
    rw [hdup]
    rfl
  rw [eachDup_rest g.2 h.rest (Nat.le_of_lt hfuel), hk]
  simp only [hlast]

theorem eachDup_error {visit : σ → α → Except ε σ} {fuel j : Nat} {s s' : σ} {e : ε} {g : Chunk α} (h : ChunkAt read dup j g)
    (hend : read (j + 1 + g.2.length) = .error e) (hfuel : g.2.length < fuel) (hvisit : g.2.foldlM visit s = .ok s') :
    eachDup read dup stop visit fuel j s = .error e := by
  obtain ⟨k, hk⟩ : ∃ k, fuel - g.2.length = k + 1 := ⟨fuel - g.2.length - 1, by omega⟩
  rw [eachDup_rest g.2 h.rest (Nat.le_of_lt hfuel), hk, hvisit]
  show eachDup read dup stop visit (k + 1) (j + g.2.length) s' = _
  unfold eachDup
  rw [show j + g.2.length + 1 = j + 1 + g.2.length by omega, hend]
  rfl

end

/-! ## Walks over chunks -/

/-- Two tables hold the chunks `gs`, from `i` and `j` on, none longer than the loops over it go,
    and a first record follows them. -/
structure InStep (rs rd : Nat → Except ε α) (dup : α → Bool) (ms md last i j : Nat) (gs : List (Chunk α × Chunk α)) : Prop where
  left : ChunksAt rs dup i (gs.map Prod.fst)
  right : ChunksAt rd dup j (gs.map Prod.snd)
  stops : chunksEnd j (gs.map Prod.snd) = last
  next : gs ≠ [] → FirstAt rs dup (chunksEnd i (gs.map Prod.fst)) ∧ FirstAt rd dup last
  fuel : ∀ g ∈ gs, g.1.2.length < ms ∧ g.2.2.length < md

section
variable {rs rd : Nat → Except ε α} {dup : α → Bool} {stop : ε} {ms md : Nat}

theorem first_after {i : Nat} {g : Chunk α} {gs : List (Chunk α)} (h : ChunksAt rs dup i (g :: gs))
    (hend : FirstAt rs dup (chunksEnd i (g :: gs))) : FirstAt rs dup (i + 1 + g.2.length) := by
  apply h.2.next
  rintro rfl
  exact hend

theorem chunksEnd_le (gs : List (Chunk α)) : ∀ i, i + gs.length ≤ chunksEnd i gs := by
  induction gs with
  | nil => exact fun i => Nat.le_refl i
  | cons g gs ih =>
    intro i
    have := ih (i + 1 + g.2.length)
    rw [List.length_cons]
    unfold chunksEnd
    omega

theorem InStep.tail {last i j : Nat} {g : Chunk α × Chunk α} {gs : List (Chunk α × Chunk α)}
    (h : InStep rs rd dup ms md last i j (g :: gs)) : InStep rs rd dup ms md last (i + 1 + g.1.2.length) (j + 1 + g.2.2.length) gs where
  left := h.left.2
  right := h.right.2
  stops := h.stops
  next _ := h.next (List.cons_ne_nil _ _)
  fuel g' hg' := h.fuel g' (List.mem_cons_of_mem g hg')

theorem lt_last {last j : Nat} {g : Chunk α × Chunk α} {gs : List (Chunk α × Chunk α)}
    (h : chunksEnd j ((g :: gs).map Prod.snd) = last) : j < last := by
  have := chunksEnd_le ((g :: gs).map Prod.snd) j
  rw [h, List.length_map, List.length_cons] at this
  omega

/-- One round of the walk, at a chunk that a first record follows on both sides. -/
theorem lockstep_round {visit : Nat → σ → α → Except ε σ} {last fuel i j : Nat} {s : σ} {g g' : Chunk α} (hj : j < last)
    (h : ChunkAt rs dup i g) (h' : ChunkAt rd dup j g') (hend : FirstAt rs dup (i + 1 + g.2.length))
    (hend' : FirstAt rd dup (j + 1 + g'.2.length)) (hm : g.2.length < ms) (hm' : g'.2.length < md) :
    lockstep rs rd dup stop ms md last visit (fuel + 1) i j s = (do
      let s ← (g'.1 :: g'.2).foldlM (visit i) s
      lockstep rs rd dup stop ms md last visit fuel (i + 1 + g.2.length) (j + 1 + g'.2.length) s) := by
  conv => lhs; unfold lockstep
  rw [if_pos hj, h.first, h'.first, List.foldlM_cons]
  show (visit i s g'.1 >>= _) = _
  cases visit i s g'.1 with
  | error e => rfl
  | ok s1 =>
    show (eachDup rd dup stop (visit i) md j s1 >>= _) = (g'.2.foldlM (visit i) s1 >>= _)
    rw [eachDup_ok h' hend' hm']
    cases g'.2.foldlM (visit i) s1 with
    | error e => rfl
    | ok s2 =>
      show (skipDups rs dup stop ms i >>= _) = _
      rw [skipDups_ok h hend hm]
      show lockstep rs rd dup stop ms md last visit fuel (i + g.2.length + 1) (j + g'.2.length + 1) s2 = _
      rw [show i + g.2.length + 1 = i + 1 + g.2.length by omega, show j + g'.2.length + 1 = j + 1 + g'.2.length by omega]
      rfl

/-- Every record of a chunk of the second table is visited once, with the chunk of the first. -/
theorem lockstep_chunks {visit : Nat → σ → α → Except ε σ} {last : Nat} (gs : List (Chunk α × Chunk α)) : ∀ {fuel i j : Nat} {s : σ},
    InStep rs rd dup ms md last i j gs → gs.length ≤ fuel → lockstep rs rd dup stop ms md last visit fuel i j s = (do
      let s ← visitChunks visit i gs s
      pure (chunksEnd i (gs.map Prod.fst), last, s)) := by
  induction gs with
  | nil =>
    intro fuel i j s h _
    cases h.stops
    cases fuel with
    | zero => rfl
    | succ fuel => exact if_neg (Nat.lt_irrefl _)
  | cons g gs ih =>
    intro fuel i j s h hfuel
    obtain ⟨fuel, rfl⟩ : ∃ k, fuel = k + 1 := ⟨fuel - 1, by rw [List.length_cons] at hfuel; omega⟩
    obtain ⟨hends, hendd⟩ := h.next (List.cons_ne_nil _ _)
    obtain ⟨hm1, hm2⟩ := h.fuel g List.mem_cons_self
    rw [lockstep_round (lt_last h.stops) h.left.1 h.right.1 (first_after h.left hends) (first_after h.right (h.stops ▸ hendd)) hm1 hm2]
    unfold visitChunks
    cases (g.2.1 :: g.2.2).foldlM (visit i) s with
    | error e => rfl
    | ok s1 => exact ih h.tail (Nat.le_of_succ_le_succ hfuel)

/-- Where the record past the chunks cannot be read on one side, the walk fails. -/
theorem lockstep_fails {visit : Nat → σ → α → Except ε σ} {last : Nat} (gs : List (Chunk α × Chunk α)) : ∀ {fuel i j : Nat} {s s' : σ},
    ChunksAt rs dup i (gs.map Prod.fst) → ChunksAt rd dup j (gs.map Prod.snd) → chunksEnd j (gs.map Prod.snd) = last →
    gs ≠ [] → (∃ e, rs (chunksEnd i (gs.map Prod.fst)) = .error e ∧ FirstAt rd dup last) ∨ (∃ e, rd last = .error e) →
    (∀ g ∈ gs, g.1.2.length < ms ∧ g.2.2.length < md) → gs.length ≤ fuel → visitChunks visit i gs s = .ok s' →
    ∃ e, lockstep rs rd dup stop ms md last visit fuel i j s = .error e := by
  induction gs with
  | nil => exact fun _ _ _ hne => absurd rfl hne
  | cons g gs ih =>
    intro fuel i j s s' hi hj hlast _ hend hm hfuel hvisit
    obtain ⟨fuel, rfl⟩ : ∃ k, fuel = k + 1 := ⟨fuel - 1, by rw [List.length_cons] at hfuel; omega⟩
    rw [List.length_cons] at hfuel
    have hlt : j < last := lt_last hlast
    obtain ⟨hm1, hm2⟩ := hm g List.mem_cons_self
    unfold visitChunks at hvisit
    obtain ⟨s1, hfirst, hrest⟩ := bind_ok.mp hvisit
    cases gs with
    | nil =>
      obtain ⟨sa, hsa, hdups⟩ := bind_ok.mp hfirst
      have hj' : j + 1 + g.2.2.length = last := hlast
      unfold lockstep
      rw [if_pos hlt, hi.1.first, hj.1.first]
      show ∃ e, (visit i s g.2.1 >>= _) = _
      rw [hsa]
      show ∃ e, (eachDup rd dup stop (visit i) md j sa >>= _) = _
      obtain ⟨e, he, hfresh⟩ | ⟨e, he⟩ := hend
      · rw [eachDup_ok hj.1 (hj' ▸ hfresh) hm2, hdups]
        refine ⟨e, ?_⟩
        show (skipDups rs dup stop ms i >>= _) = _
        rw [skipDups_error hi.1 he hm1]
        rfl
      · rw [eachDup_error hj.1 (hj' ▸ he) hm2 hdups]
        exact ⟨e, rfl⟩
    | cons g' gs' =>
      rw [lockstep_round hlt hi.1 hj.1 (hi.2.next (fun h => nomatch h)) (hj.2.next (fun h => nomatch h)) hm1 hm2, hfirst]
      exact ih hi.2 hj.2 hlast (List.cons_ne_nil _ _) hend (fun x hx => hm x (List.mem_cons_of_mem g hx))
        (Nat.le_of_succ_le_succ hfuel) hrest

/-- The search tests the first records of the chunks in order. -/
theorem lockfind_chunks {test : α → α → Except ε (Option β)} {last : Nat} (gs : List (Chunk α × Chunk α)) : ∀ {fuel i j : Nat},
    InStep rs rd dup ms md last i j gs → gs.length ≤ fuel → lockfind rs rd dup stop ms md last test fuel i j = findChunk test gs := by
  induction gs with
  | nil =>
    intro fuel i j h _
    cases h.stops
    cases fuel with
    | zero => rfl
    | succ fuel => exact if_neg (Nat.lt_irrefl _)
  | cons g gs ih =>
    intro fuel i j h hfuel
    obtain ⟨fuel, rfl⟩ : ∃ k, fuel = k + 1 := ⟨fuel - 1, by rw [List.length_cons] at hfuel; omega⟩
    obtain ⟨hends, hendd⟩ := h.next (List.cons_ne_nil _ _)
    obtain ⟨hm1, hm2⟩ := h.fuel g List.mem_cons_self
    unfold lockfind findChunk
    rw [if_pos (lt_last h.stops), h.left.1.first, h.right.1.first, skipDups_ok h.left.1 (first_after h.left hends) hm1,
      skipDups_ok h.right.1 (first_after h.right (h.stops ▸ hendd)) hm2, ← ih h.tail (Nat.le_of_succ_le_succ hfuel)]
    rw [show i + 1 + g.1.2.length = i + g.1.2.length + 1 by omega, show j + 1 + g.2.2.length = j + g.2.2.length + 1 by omega]
    rfl

end

end Popcorn.Lib
