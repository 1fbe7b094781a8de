/-
  Popcorn.Runtime.Writes — what rewriting a frame can change.

  Rewriting a frame writes values to locations and edits the list of fixups, and nothing
  else. `rewriteFrame_rule` is the invariant rule that follows; with it, the call sites,
  CFAs and bitmaps of all activations stay what they are (`rewriteFrame_same`).

  Proved:
  - `read_writeLoc_same`, `read_writeLoc_disj`: reading after a write.
  - `rewriteFrame_rule`: an invariant of writes and fixup edits is one of `rewrite_frame`.
  - `rewriteFrame_same`.
-/

import Popcorn.Lib.Run
import Popcorn.Runtime.Rewrite

namespace Popcorn.Runtime

open Popcorn.Lib Popcorn.Metadata

/-! ## Reading after a write -/

/-- Two locations of these lengths share no byte. -/
def Loc.Disj : Loc → Nat → Loc → Nat → Prop
  | .mem a, n, .mem b, m => a + n ≤ b ∨ b + m ≤ a
  | .reg j a, n, .reg k b, m => j ≠ k ∨ a + n ≤ b ∨ b + m ≤ a
  | _, _, _, _ => True

theorem Loc.Disj.symm {l l' : Loc} {n n' : Nat} (h : l.Disj n l' n') : l'.Disj n' l n := by
  cases l <;> cases l' <;> simp only [Loc.Disj] at h ⊢ <;> omega

/-- The bytes at a location of the destination. -/
def Dst.read (st : Dst) (l : Loc) (n : Nat) : List UInt8 := readLoc st.ctx st.mem l n

theorem Dst.read_length (st : Dst) (l : Loc) (n : Nat) : (st.read l n).length = n := by
  cases l <;> exact load_length _ _ _

theorem read_writeLoc_same (st : Dst) (l : Loc) {n : Nat} {bs : List UInt8} (h : n ≤ bs.length) :
    (writeLoc st l bs).read l n = bs.take n := by
  cases l with
  | mem a => exact load_store_take _ _ h
  | reg k off =>
    unfold writeLoc Dst.read readLoc
    simp only [Ctx.modAct_same]
    exact load_store_take _ _ h

theorem read_writeLoc_patch (st : Dst) (l : Loc) {n : Nat} {bs : List UInt8} (h : bs.length ≤ n) :
    (writeLoc st l bs).read l n = bs ++ (st.read l n).drop bs.length := by
  cases l with
  | mem a => exact load_store_patch _ _ h
  | reg k off =>
    unfold writeLoc Dst.read readLoc
    simp only [Ctx.modAct_same]
    exact load_store_patch _ _ h

theorem read_writeLoc_disj (st : Dst) {l l' : Loc} {n : Nat} {bs : List UInt8} (h : l'.Disj n l bs.length) :
    (writeLoc st l bs).read l' n = st.read l' n := by
  cases l with
  | mem a =>
    cases l' with
    | mem a' => exact load_store_disj _ h
    | reg k' off' => rfl
  | reg k off =>
    cases l' with
    | mem a' => rfl
    | reg k' off' =>
      unfold writeLoc Dst.read readLoc
      by_cases hk : k' = k
      · subst hk
        simp only [Ctx.modAct_same]
        apply load_store_disj
        exact h.resolve_left (fun e => e rfl)
      · simp only [Ctx.modAct_ne _ _ _ hk]

/-! ## Everything but registers and fixups stays -/

structure SameFrames (c c' : Ctx) : Prop where
  handle : c'.handle = c.handle
  stackBase : c'.stackBase = c.stackBase
  stack : c'.stack = c.stack
  numActs : c'.numActs = c.numActs
  act : c'.act = c.act
  pool : c'.pool = c.pool
  site : ∀ k, (c'.acts k).site = (c.acts k).site
  cfa : ∀ k, (c'.acts k).cfa = (c.acts k).cfa
  calleeSaved : ∀ k, (c'.acts k).calleeSaved = (c.acts k).calleeSaved

theorem SameFrames.refl (c : Ctx) : SameFrames c c := ⟨rfl, rfl, rfl, rfl, rfl, rfl, fun _ => rfl, fun _ => rfl, fun _ => rfl⟩

theorem SameFrames.trans {c c' c'' : Ctx} (h : SameFrames c c') (h' : SameFrames c' c'') : SameFrames c c'' where
  handle := h'.handle.trans h.handle
  stackBase := h'.stackBase.trans h.stackBase
  stack := h'.stack.trans h.stack
  numActs := h'.numActs.trans h.numActs
  act := h'.act.trans h.act
  pool := h'.pool.trans h.pool
  site k := (h'.site k).trans (h.site k)
  cfa k := (h'.cfa k).trans (h.cfa k)
  calleeSaved k := (h'.calleeSaved k).trans (h.calleeSaved k)

theorem SameFrames.curSite {c c' : Ctx} (h : SameFrames c c') : c'.cur.site = c.cur.site := by
  unfold Ctx.cur
  rw [h.act]
  exact h.site _

theorem writeLoc_same (st : Dst) (l : Loc) (bs : List UInt8) : SameFrames st.ctx (writeLoc st l bs).ctx := by
  cases l with
  | mem a => exact SameFrames.refl _
  | reg k off =>
    have h : ∀ j, ((writeLoc st (.reg k off) bs).ctx.acts j).site = (st.ctx.acts j).site ∧
        ((writeLoc st (.reg k off) bs).ctx.acts j).cfa = (st.ctx.acts j).cfa ∧
        ((writeLoc st (.reg k off) bs).ctx.acts j).calleeSaved = (st.ctx.acts j).calleeSaved := by
      intro j
      unfold writeLoc
      by_cases hj : j = k
      · subst hj
        simp only [Ctx.modAct_same, and_self]
      · simp only [Ctx.modAct_ne _ _ _ hj, and_self]
    exact ⟨rfl, rfl, rfl, rfl, rfl, rfl, fun j => (h j).1, fun j => (h j).2.1, fun j => (h j).2.2⟩

theorem writeBoth_same (st : Dst) (l : Loc) (callee : Option Loc) (bs : List UInt8) :
    SameFrames st.ctx (writeBoth st l callee bs).ctx := by
  cases callee with
  | none => exact writeLoc_same st l bs
  | some l' => exact (writeLoc_same st l bs).trans (writeLoc_same _ l' bs)

theorem writeBoth_stackPointers (st : Dst) (l : Loc) (callee : Option Loc) (bs : List UInt8) :
    (writeBoth st l callee bs).ctx.stackPointers = st.ctx.stackPointers := by
  cases l <;> cases callee with
  | none => rfl
  | some l' => cases l' <;> rfl

theorem setFixups_same (st : Dst) (fs : List Fixup) : SameFrames st.ctx (st.setFixups fs).ctx :=
  ⟨rfl, rfl, rfl, rfl, rfl, rfl, fun _ => rfl, fun _ => rfl, fun _ => rfl⟩

theorem setFixups_read (st : Dst) (fs : List Fixup) (l : Loc) (n : Nat) : (st.setFixups fs).read l n = st.read l n := by
  cases l <;> rfl

/-! ## The invariant rule -/

/-- A put leaves the state alone or writes both locations of a value. -/
theorem putVal_cases {src : Ctx} {i : Nat} {st st' : Dst} {w : LiveValue} (h : putVal src i st w = .ok st') :
    st' = st ∨ ∃ l c bs, st' = writeBoth st l c bs := by
  unfold putVal at h
  split at h
  · exact .inl (Except.ok.inj h).symm
  · simp only [bind_ok] at h
    obtain ⟨bs, -, l, -, c, -, h⟩ := h
    exact .inr ⟨l, c, bs, (Except.ok.inj h).symm⟩

theorem putValData_cases {st st' : Dst} {w : LiveValue} {act data : Nat} (h : putValData st w act data = .ok st') :
    st' = st ∨ ∃ l c bs, st' = writeBoth st l c bs := by
  unfold putValData at h
  split at h
  · exact .inl (Except.ok.inj h).symm
  · simp only [bind_ok] at h
    obtain ⟨l, -, c, -, h⟩ := h
    exact .inr ⟨l, c, _, (Except.ok.inj h).symm⟩

theorem putValArch_cases {st st' : Dst} {v : ArchLiveValue} (h : putValArch st v = .ok st') :
    ∃ l c bs, st' = writeBoth st l c bs := by
  unfold putValArch at h
  simp only [bind_ok] at h
  obtain ⟨l, -, c, -, _, -, _, -, h⟩ := h
  exact ⟨l, c, _, (Except.ok.inj h).symm⟩

section Rule
variable {P : Dst → Prop} (hwrite : ∀ st l c bs, P st → P (writeBoth st l c bs)) (hfix : ∀ st fs, P st → P (st.setFixups fs))
  {src : Ctx}

include hwrite in
theorem put_rule {st st' : Dst} (h : st' = st ∨ ∃ l c bs, st' = writeBoth st l c bs) (hp : P st) : P st' := by
  obtain rfl | ⟨l, c, bs, rfl⟩ := h
  · exact hp
  · exact hwrite st l c bs hp

include hwrite hfix in
theorem fixupOrPut_rule {i : Nat} {st st' : Dst} {w : LiveValue} {b : Bool} (h : fixupOrPut src i st w = .ok (b, st'))
    (hp : P st) : P st' := by
  unfold fixupOrPut at h
  obtain ⟨addr, -, h⟩ := bind_ok.mp h
  split at h
  · split at h
    · cases h
      exact hfix _ _ hp
    · cases h
      exact hp
  · obtain ⟨st1, h1, h⟩ := bind_ok.mp h
    cases h
    exact put_rule hwrite (putVal_cases h1) hp

include hwrite in
theorem resolveFixups_rule {v w : LiveValue} (fs : List Fixup) : ∀ {st st' : Dst} {kept : List Fixup},
    resolveFixups src v w fs st = .ok (kept, st') → P st → P st' := by
  induction fs with
  | nil =>
    intro st st' kept h hp
    cases h
    exact hp
  | cons f fs ih =>
    intro st st' kept h hp
    unfold resolveFixups at h
    obtain ⟨addr, -, h⟩ := bind_ok.mp h
    split at h
    · obtain ⟨st1, h1, h⟩ := bind_ok.mp h
      exact ih h (put_rule hwrite (putValData_cases h1) hp)
    · obtain ⟨⟨kept', st1⟩, h1, h⟩ := bind_ok.mp h
      cases h
      exact ih h1 hp

include hwrite hfix in
theorem rewriteVal_rule {i : Nat} {st st' : Dst} {w : LiveValue} {b : Bool} (h : rewriteVal src i st w = .ok (b, st'))
    (hp : P st) : P st' := by
  unfold rewriteVal at h
  dsimp only at h
  split at h
  · cases h
    exact hp
  · obtain ⟨⟨b1, st1⟩, h1, h⟩ := bind_ok.mp h
    have hp1 := fixupOrPut_rule hwrite hfix h1 hp
    split at h
    · obtain ⟨⟨kept, st2⟩, h2, h⟩ := bind_ok.mp h
      cases h
      exact hfix _ _ (resolveFixups_rule hwrite _ h2 hp1)
    · cases h
      exact hp1

include hwrite hfix in
theorem rewriteDuplicates_rule {i : Nat} (fuel : Nat) : ∀ {j j' : Nat} {b b' : Bool} {st st' : Dst},
    rewriteDuplicates src i fuel j (b, st) = .ok (j', b', st') → P st → P st' := by
  induction fuel with
  | zero => intro j j' b b' st st' h _; cases h
  | succ fuel ih =>
    intro j j' b b' st st' h hp
    unfold rewriteDuplicates at h
    obtain ⟨w, -, h⟩ := bind_ok.mp h
    split at h
    · obtain ⟨⟨b1, st1⟩, h1, h⟩ := bind_ok.mp h
      exact ih h (rewriteVal_rule hwrite hfix h1 hp)
    · cases h
      exact hp

include hwrite hfix in
theorem rewriteVals_rule (fuel : Nat) : ∀ {i j : Nat} {b b' : Bool} {st st' : Dst},
    rewriteVals src fuel i j (b, st) = .ok (b', st') → P st → P st' := by
  induction fuel with
  | zero =>
    intro i j b b' st st' h hp
    cases h
    exact hp
  | succ fuel ih =>
    intro i j b b' st st' h hp
    unfold rewriteVals at h
    split at h
    · obtain ⟨_, -, h⟩ := bind_ok.mp h
      obtain ⟨w, -, h⟩ := bind_ok.mp h
      obtain ⟨⟨b1, st1⟩, h1, h⟩ := bind_ok.mp h
      obtain ⟨⟨j2, b2, st2⟩, h2, h⟩ := bind_ok.mp h
      obtain ⟨i', -, h⟩ := bind_ok.mp h
      exact ih h (rewriteDuplicates_rule hwrite hfix _ h2 (rewriteVal_rule hwrite hfix h1 hp))
    · cases h
      exact hp

include hwrite hfix in
theorem fixupLoop_rule (fs : List Fixup) : ∀ {found : Bool} {kept : List Fixup} {st st' : Dst},
    fixupLoop src found kept fs st = .ok st' → P st → P st' := by
  induction fs with
  | nil =>
    intro found kept st st' h hp
    cases h
    exact hfix _ _ hp
  | cons f fs ih =>
    intro found kept st st' h hp
    unfold fixupLoop at h
    split at h
    · split at h
      · exact ih h hp
      · obtain ⟨addr, -, h⟩ := bind_ok.mp h
        split at h
        · obtain ⟨st1, h1, h⟩ := bind_ok.mp h
          exact ih h (put_rule hwrite (putValData_cases h1) hp)
        · exact ih h hp
    · split at h
      · cases h
      · exact ih h hp

include hwrite in
theorem rewriteArchVal_rule {st st' : Dst} {i : Nat} (h : rewriteArchVal st i = .ok st') (hp : P st) : P st' := by
  unfold rewriteArchVal at h
  split at h
  · exact put_rule hwrite (.inr (putValArch_cases h)) hp
  · cases h

include hwrite hfix in
/-- An invariant of every write and of every edit of the fixups is one of `rewrite_frame`. -/
theorem rewriteFrame_rule {found : Bool} {st st' : Dst} (h : rewriteFrame src found st = .ok st') (hp : P st) : P st' := by
  unfold rewriteFrame at h
  obtain ⟨⟨b, st1⟩, h1, h⟩ := bind_ok.mp h
  obtain ⟨st2, h2, h⟩ := bind_ok.mp h
  have hp1 := rewriteVals_rule hwrite hfix _ h1 hp
  have hp2 := foldlM_inv (P := fun _ => P) (fun _ _ _ _ hp h => rewriteArchVal_rule hwrite h hp) _ [] _ _ hp1 h2
  split at h
  · exact fixupLoop_rule hwrite hfix _ h hp2
  · cases h
    exact hp2

end Rule

theorem rewriteFrame_same {src : Ctx} {found : Bool} {st st' : Dst} (h : rewriteFrame src found st = .ok st') :
    SameFrames st.ctx st'.ctx :=
  rewriteFrame_rule (P := fun s => SameFrames st.ctx s.ctx) (fun s l c bs hs => hs.trans (writeBoth_same s l c bs))
    (fun s fs hs => hs.trans (setFixups_same s fs)) h (SameFrames.refl _)

end Popcorn.Runtime
