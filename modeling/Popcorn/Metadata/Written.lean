/-
  Popcorn.Metadata.Written — what the file holds after a run of gen-stackinfo.

  `add_sections` finds the sections by name while the table of names grows. As long as every name
  ends inside the table (`Named`), the names that are appended hide none of the others, and each of
  the four sections is found where it was written (`Filled`).

  Proved:
  - `filled_items`: the four sections after the updates, by name.
  - `reopen_sectionBytes`: in a file that is laid out every section reads back as it was written.
  - `Ran.contents`: the table of functions and the metadata in the written file.
-/

import Popcorn.Metadata.Tool

namespace Popcorn.Metadata.Layout

open Popcorn.Lib

/-! ## Names -/

/-- Every section's name ends inside the table. -/
def Named (e : Elf) (tab : List UInt8) : Prop := ∀ off ∈ e.scns.tail.map (·.shdr.shName), 0 ∈ tab.drop off.toNat

theorem nameTable_unique {e : Elf} {k k' : Nat} {tab tab' : List UInt8} (h : NameTable e k tab) (h' : NameTable e k' tab') :
    k = k' ∧ tab = tab' := by
  obtain rfl := Option.some.inj (h.index.symm.trans h'.index)
  obtain ⟨shdr, hs, -⟩ := h.scn
  obtain ⟨shdr', hs', -⟩ := h'.scn
  have hdata := congrArg Scn.data (Option.some.inj (hs.symm.trans hs'))
  exact ⟨rfl, Option.some.inj (Option.some.inj hdata)⟩

/-- Where the section of `it` stands in the grown file. -/
structure Placed (e d : Elf) (it : Item) (j : Nat) (scn : Scn) : Prop where
  index : getSection d it.name = some j
  present : d.scns[j]? = some scn
  ne : elfGetshdrstrndx d ≠ some j
  data : scn.data = some (some it.buf)
  size : scn.shdr.shSize = UInt64.ofNat it.buf.length
  /-- An added section has a header of its own; one that was found keeps the rest of its header. -/
  shdr : (getSection e it.name = none ∧ scn.shdr.shType = shtProgbits ∧ scn.shdr.shEntsize = UInt64.ofNat it.entrySize) ∨
    ∃ s, getSection e it.name = some j ∧ e.scns[j]? = some s ∧ scn.shdr.shType = s.shdr.shType ∧ scn.shdr.shEntsize = s.shdr.shEntsize

structure Filled (e d : Elf) (its : List Item) (k : Nat) (tab : List UInt8) : Prop where
  ehdr : d.ehdr = e.ehdr
  table : ∃ tab', NameTable d k tab' ∧ Named d tab' ∧ tab'.length ≤ tab.length + (its.map (·.name.length + 1)).sum
  other : ∀ sec, (∀ it ∈ its, it.name ≠ sec) → getSection d sec = getSection e sec
  placed : ∀ it ∈ its, ∃ j scn, Placed e d it j scn

section
variable {e e' d : Elf} {it : Item} {its : List Item} {k : Nat} {tab : List UInt8} {scn : Scn}

/-- The section that was appended is found under its name, and the others under theirs. -/
theorem getSection_add (hn : NameTable e k tab) (hnamed : Named e tab) (hit : it.Ok) (hfit : tab.length < 4294967296)
    (hs : getSection e it.name = none) (hk : e.scns[k]? = some scn)
    (he' : e' = { e with scns := e.scns.set k (withName scn (tab ++ it.name ++ [0])) ++ [newScn it tab.length] })
    (hn' : NameTable e' k (tab ++ it.name ++ [0])) :
    getSection e' it.name = some e.scns.length ∧ (∀ sec, it.name ≠ sec → getSection e' sec = getSection e sec) ∧
      Named e' (tab ++ it.name ++ [0]) := by
  have hnames : e'.scns.tail.map (·.shdr.shName) = e.scns.tail.map (·.shdr.shName) ++ [UInt32.ofNat tab.length] := by
    rw [he']
    exact names_add hk
  have hoff : (UInt32.ofNat tab.length).toNat = tab.length := by rw [UInt32.toNat_ofNat', Nat.mod_eq_of_lt hfit]
  have hnew : stringAt (tab ++ it.name ++ [0]) (UInt32.ofNat tab.length).toNat = some it.name := by
    rw [hoff]
    exact stringAt_new hit.no_zero
  have hold (sec : Name) : findName (tab ++ it.name ++ [0]) sec 1 (e.scns.tail.map (·.shdr.shName)) =
      findName tab sec 1 (e.scns.tail.map (·.shdr.shName)) := by
    apply findName_congr
    intro off hmem
    rw [List.append_assoc, stringAt_more (hnamed off hmem)]
  have hlen : 1 + (e.scns.tail.map (·.shdr.shName)).length = e.scns.length := by
    have := (List.getElem?_eq_some_iff.mp hk).1
    rw [List.length_map, List.length_tail]
    omega
  refine ⟨?_, ?_, ?_⟩
  · rw [getSection_eq hn', hnames, findName_new (by rw [hold, ← getSection_eq hn, hs]) hnew, hlen]
  · intro sec hsec
    rw [getSection_eq hn', getSection_eq hn, hnames, findName_snoc, hold]
    rw [hnew]
    exact fun h => hsec (Option.some.inj h)
  · intro off hmem
    rw [hnames, List.mem_append, List.mem_singleton] at hmem
    obtain hmem | rfl := hmem
    · rw [List.append_assoc, List.drop_append, List.mem_append]
      exact .inl (hnamed off hmem)
    · rw [hoff, List.append_assoc, List.drop_left' rfl]
      simp

/-- One of the four calls: the section of `it` stands in its place, and the others are as they were. -/
structure Wrote (e e' : Elf) (it : Item) (k : Nat) (tab tab' : List UInt8) : Prop where
  ehdr : e'.ehdr = e.ehdr
  table : NameTable e' k tab'
  named : Named e' tab'
  length : tab'.length ≤ tab.length + (it.name.length + 1)
  other : ∀ sec, it.name ≠ sec → getSection e' sec = getSection e sec
  placed : ∃ j scn, Placed e e' it j scn
  kept : ∀ j, j < e.scns.length → j ≠ k → getSection e it.name ≠ some j → e'.scns[j]? = e.scns[j]?

theorem writeSection_update (hn : NameTable e k tab) (hnamed : Named e tab) {i : Nat} (hs : getSection e it.name = some i) (hne : i ≠ k)
    (h : writeSection e it = .ok e') : Wrote e e' it k tab tab := by
  obtain ⟨scn, hscn, rfl, hn', hsame⟩ := writeSection_found hn hs hne h
  have hlt := (List.getElem?_eq_some_iff.mp hscn).1
  constructor
  case ehdr => rfl
  case table => exact hn'
  case named =>
    have hmap : (e.scns.set i ⟨{ scn.shdr with shSize := UInt64.ofNat it.buf.length }, some (some it.buf)⟩).map (·.shdr.shName) =
        e.scns.map (·.shdr.shName) := map_set_same hscn rfl
    unfold Named
    dsimp only
    rw [List.map_tail, hmap, ← List.map_tail]
    exact hnamed
  case length => exact Nat.le_add_right _ _
  case other => exact fun sec _ => hsame sec
  case placed =>
    refine ⟨i, _, (hsame _).trans hs, List.getElem?_set_self hlt, ?_, rfl, rfl, .inr ⟨scn, hs, hscn, rfl, rfl⟩⟩
    rw [hn'.index]
    exact fun h => hne (Option.some.inj h).symm
  case kept =>
    intro j _ _ hj
    have hij : i ≠ j := fun h => hj (by rw [hs, h])
    exact List.getElem?_set_ne hij

theorem writeSection_append (hn : NameTable e k tab) (hnamed : Named e tab) (hit : it.Ok) (hfit : tab.length < 4294967296)
    (hs : getSection e it.name = none) (h : writeSection e it = .ok e') : Wrote e e' it k tab (tab ++ it.name ++ [0]) := by
  obtain ⟨scn, hk, heq, hn', -⟩ := writeSection_missing hn hit hfit hs h
  obtain ⟨hnew, hsame, hnamed'⟩ := getSection_add hn hnamed hit hfit hs hk heq hn'
  have hlt := (List.getElem?_eq_some_iff.mp hk).1
  have hscns : e'.scns = e.scns.set k (withName scn (tab ++ it.name ++ [0])) ++ [newScn it tab.length] := by rw [heq]
  constructor
  case ehdr => rw [heq]
  case table => exact hn'
  case named => exact hnamed'
  case length => simp
  case other => exact hsame
  case placed =>
    refine ⟨e.scns.length, newScn it tab.length, hnew, ?_, ?_, rfl, rfl, .inl ⟨hs, rfl, rfl⟩⟩
    · rw [hscns, List.getElem?_append_right (by rw [List.length_set]), List.length_set, Nat.sub_self]
      rfl
    · rw [hn'.index]
      exact fun h => absurd (Option.some.inj h) (Nat.ne_of_lt hlt)
  case kept =>
    intro j hj hjk _
    rw [hscns, List.getElem?_append_left (by rwa [List.length_set]), List.getElem?_set_ne (Ne.symm hjk)]

/-- The place of a section that is written later, seen from before. -/
theorem Wrote.before {tab' : List UInt8} (h : Wrote e e' it k tab tab') (hn : NameTable e k tab) {it' : Item} {j : Nat}
    (hne : it'.name ≠ it.name) (hapart : getSection e it'.name ≠ some k) (hp : Placed e' d it' j scn) : Placed e d it' j scn where
  index := hp.index
  present := hp.present
  ne := hp.ne
  data := hp.data
  size := hp.size
  shdr := by
    have hsame := h.other _ (Ne.symm hne)
    obtain ⟨hnone, hshdr⟩ | ⟨s, hj, hs, hshdr⟩ := hp.shdr
    · rw [hsame] at hnone
      exact .inl ⟨hnone, hshdr⟩
    · rw [hsame] at hj
      have hjk : j ≠ k := fun h => hapart (by rw [hj, h])
      rw [h.kept j (getSection_lt hj).2 hjk fun h' => hne (getSection_inj hn hj h')] at hs
      exact .inr ⟨s, hj, hs, hshdr⟩

/-- The place of a section is kept by those written after it. -/
theorem Placed.after {tab' tab'' : List UInt8} {j : Nat} (hp : Placed e e' it j scn) (hn' : NameTable e' k tab') (hn'' : NameTable d k tab'')
    (hg : Grown e' d its) (hdist : ∀ it' ∈ its, it'.name ≠ it.name) (hsame : getSection d it.name = getSection e' it.name) :
    Placed e d it j scn where
  index := hsame.trans hp.index
  present := hg.kept j scn hp.present hp.ne fun it' hit' h => hdist it' hit' (getSection_inj hn' h hp.index)
  ne := by
    rw [hn''.index, ← hn'.index]
    exact hp.ne
  data := hp.data
  size := hp.size
  shdr := hp.shdr

/-- What the four calls leave, by name. -/
theorem filled_items : ∀ {e : Elf} {tab : List UInt8}, NameTable e k tab → Named e tab →
    (∀ it ∈ its, it.Ok ∧ it.buf.length < 18446744073709551616) → its.Pairwise (fun a b => b.name.getLast? ≠ a.name.getLast?) →
      (∀ it ∈ its, getSection e it.name ≠ some k) → tab.length + (its.map (·.name.length + 1)).sum < 4294967296 →
        its.foldlM writeSection e = .ok d → Filled e d its k tab := by
  induction its with
  | nil =>
    intro e tab hn hnamed _ _ _ _ h
    obtain rfl := Except.ok.inj h
    exact ⟨rfl, ⟨tab, hn, hnamed, Nat.le_add_right _ _⟩, fun _ _ => rfl, fun it hit => absurd hit List.not_mem_nil⟩
  | cons it its ih =>
    intro e tab hn hnamed hok hp hapart hfit h
    rw [List.foldlM_cons] at h
    obtain ⟨e', he', hrest⟩ := bind_ok.mp h
    obtain ⟨hlast, hp⟩ := List.pairwise_cons.mp hp
    rw [List.map_cons, List.sum_cons] at hfit
    rw [List.forall_mem_cons] at hok hapart
    obtain ⟨tab', hw⟩ : ∃ tab', Wrote e e' it k tab tab' := by
      cases hs : getSection e it.name with
      | some i => exact ⟨_, writeSection_update hn hnamed hs (fun h => hapart.1 (by rw [hs, h])) he'⟩
      | none => exact ⟨_, writeSection_append hn hnamed hok.1.1 (by omega) hs he'⟩
    have hlen := hw.length
    have hdist : ∀ it' ∈ its, it'.name ≠ it.name := fun it' hit' heq => hlast it' hit' (by rw [heq])
    have hapart' : ∀ it' ∈ its, getSection e' it'.name ≠ some k := fun it' hit' => by
      rw [hw.other _ (Ne.symm (hdist it' hit'))]
      exact hapart.2 it' hit'
    have hg := grown_items hw.table hok.2 hp hapart' (by omega) hrest
    obtain ⟨hehdr, ⟨tab'', hn'', hnamed'', hle⟩, hother, hplaced⟩ := ih hw.table hw.named hok.2 hp hapart' (by omega) hrest
    constructor
    case ehdr => exact hehdr.trans hw.ehdr
    case table =>
      refine ⟨tab'', hn'', hnamed'', ?_⟩
      rw [List.map_cons, List.sum_cons]
      omega
    case other =>
      intro sec hsec
      rw [hother sec fun it' h' => hsec it' (List.mem_cons_of_mem _ h'), hw.other sec (hsec it List.mem_cons_self)]
    case placed =>
      intro it' hit'
      obtain rfl | hit' := List.mem_cons.mp hit'
      · obtain ⟨j, scn, hpl⟩ := hw.placed
        exact ⟨j, scn, hpl.after hw.table hn'' hg hdist (hother _ hdist)⟩
      · obtain ⟨j, scn, hpl⟩ := hplaced it' hit'
        exact ⟨j, scn, hw.before hn (hdist it' hit') (hapart.2 it' hit') hpl⟩

end

/-! ## The calls succeed -/

section
variable {e : Elf} {it : Item} {its : List Item} {k : Nat} {tab : List UInt8}

/-- The sections found have data. -/
def Loaded (e : Elf) (k : Nat) (its : List Item) : Prop :=
  ∀ it ∈ its, ∀ j, getSection e it.name = some j → j ≠ k ∧ ∃ shdr data, e.scns[j]? = some ⟨shdr, some data⟩

/-- A call succeeds where the section it finds has data, and takes no data away. -/
theorem writeSection_ok (hn : NameTable e k tab) (hne : tab ≠ []) (hit : it.Ok) (hp : ∀ it' ∈ its, it'.name.getLast? ≠ it.name.getLast?)
    (hits : ∀ it' ∈ its, it'.Ok) (hl : Loaded e k (it :: its)) (hfit : tab.length < 4294967296) :
    ∃ e' tab', writeSection e it = .ok e' ∧ e'.ehdr = e.ehdr ∧ NameTable e' k tab' ∧ tab' ≠ [] ∧
      tab'.length ≤ tab.length + (it.name.length + 1) ∧ Loaded e' k its ∧
        ∀ (j : Nat) (scn : Scn), e'.scns[j]? = some scn → scn.data.isSome ∨ e.scns[j]? = some scn := by
  obtain ⟨hfound, hl⟩ := List.forall_mem_cons.mp hl
  cases hs : getSection e it.name with
  | some i =>
    obtain ⟨hik, shdr, data, hscn⟩ := hfound i hs
    have hlt := (List.getElem?_eq_some_iff.mp hscn).1
    obtain ⟨e', he'⟩ : ∃ e', writeSection e it = .ok e' := by
      simp only [writeSection, hs, updateSection, hscn]
      exact ⟨_, rfl⟩
    obtain ⟨scn, -, rfl, hn', hsame⟩ := writeSection_found hn hs hik he'
    refine ⟨_, tab, he', rfl, hn', hne, Nat.le_add_right _ _, fun it' hit' j hj => ?_, fun j u hu => ?_⟩
    · rw [hsame] at hj
      obtain ⟨hjk, shdr', data', hj'⟩ := hl it' hit' j hj
      refine ⟨hjk, ?_⟩
      by_cases hji : i = j
      · subst hji
        exact ⟨_, _, List.getElem?_set_self hlt⟩
      · exact ⟨shdr', data', by rw [List.getElem?_set_ne hji, hj']⟩
    · by_cases hji : i = j
      · subst hji
        rw [List.getElem?_set_self hlt] at hu
        exact .inl (by rw [← Option.some.inj hu]; rfl)
      · rw [List.getElem?_set_ne hji] at hu
        exact .inr hu
  | none =>
    obtain ⟨e', he'⟩ : ∃ e', writeSection e it = .ok e' := by
      obtain ⟨shdr, hk, -, -⟩ := hn.scn
      have hlen : tab.length ≠ 0 := fun h => hne (List.length_eq_zero_iff.mp h)
      simp only [writeSection, hs, addSection, addSectionName, hn.index, hk, Option.getD_some, if_neg hlen]
      exact ⟨_, rfl⟩
    obtain ⟨scn, hk, rfl, hn', hsame⟩ := writeSection_missing hn hit hfit hs he'
    have hlt := (List.getElem?_eq_some_iff.mp hk).1
    refine ⟨_, _, he', rfl, hn', by simp, by simp, fun it' hit' j hj => ?_, fun j u hu => ?_⟩
    · rw [hsame it'.name (hits it' hit').ne_nil (hp it' hit')] at hj
      obtain ⟨hjk, shdr', data', hj'⟩ := hl it' hit' j hj
      refine ⟨hjk, shdr', data', ?_⟩
      rw [List.getElem?_append_left (by rw [List.length_set]; exact (getSection_lt hj).2), List.getElem?_set_ne (Ne.symm hjk), hj']
    · obtain hj | rfl | hj := Nat.lt_trichotomy j e.scns.length
      · rw [List.getElem?_append_left (by rwa [List.length_set])] at hu
        by_cases hkj : k = j
        · subst hkj
          rw [List.getElem?_set_self hlt] at hu
          exact .inl (by rw [← Option.some.inj hu]; rfl)
        · rw [List.getElem?_set_ne hkj] at hu
          exact .inr hu
      · rw [List.getElem?_append_right (by rw [List.length_set]), List.length_set, Nat.sub_self] at hu
        exact .inl (by rw [← Option.some.inj hu]; rfl)
      · have hend := (List.getElem?_eq_some_iff.mp hu).1
        rw [List.length_append, List.length_set, List.length_singleton] at hend
        omega

/-- The four calls succeed where the sections that are there already have data. -/
theorem writes_ok : ∀ {e : Elf} {tab : List UInt8}, NameTable e k tab → tab ≠ [] → (∀ it ∈ its, it.Ok) →
    its.Pairwise (fun a b => b.name.getLast? ≠ a.name.getLast?) → Loaded e k its →
      tab.length + (its.map (·.name.length + 1)).sum < 4294967296 → ∃ d, its.foldlM writeSection e = .ok d ∧ d.ehdr = e.ehdr ∧
        ∀ (j : Nat) (scn : Scn), d.scns[j]? = some scn → scn.data.isSome ∨ e.scns[j]? = some scn := by
  induction its with
  | nil => exact fun _ _ _ _ _ _ => ⟨_, rfl, rfl, fun _ _ h => .inr h⟩
  | cons it its ih =>
    intro e tab hn hne hok hp hl hfit
    rw [List.map_cons, List.sum_cons] at hfit
    obtain ⟨hlast, hp⟩ := List.pairwise_cons.mp hp
    obtain ⟨hit, hok⟩ := List.forall_mem_cons.mp hok
    obtain ⟨e', tab', he', hehdr', hn', hne', hlen, hl', hdata'⟩ := writeSection_ok hn hne hit hlast hok hl (by omega)
    obtain ⟨d, hd, hehdr, hdata⟩ := ih hn' hne' hok hp hl' (by omega)
    refine ⟨d, by rw [List.foldlM_cons]; exact bind_ok.mpr ⟨_, he', hd⟩, hehdr.trans hehdr', fun j u hu => ?_⟩
    rcases hdata j u hu with hsome | hold
    · exact .inl hsome
    · exact hdata' j u hold

end

/-! ## Placing and reading back -/

/-- The bytes in the file of the section with a name. -/
def sectionBytes (e : Elf) (sec : Name) : Option (List UInt8) := ((getSection e sec).bind (e.scns[·]?)).map scnBytes

theorem sectionBytes_eq {e : Elf} {sec : Name} {j : Nat} {scn : Scn} (hj : getSection e sec = some j) (hscn : e.scns[j]? = some scn) :
    sectionBytes e sec = some (scnBytes scn) := by
  rw [sectionBytes, hj, Option.bind_some, hscn, Option.map_some]

theorem shdrstrndx_congr {e e' : Elf} (hehdr : e'.ehdr.map (·.eShstrndx) = e.ehdr.map (·.eShstrndx))
    (hlink : e'.scns.head?.map (·.shdr.shLink) = e.scns.head?.map (·.shdr.shLink)) : elfGetshdrstrndx e' = elfGetshdrstrndx e := by
  have hlink' : (e'.scns.head?.map fun scn => scn.shdr.shLink.toNat) = e.scns.head?.map fun scn => scn.shdr.shLink.toNat := by
    have := congrArg (Option.map UInt32.toNat) hlink
    rwa [Option.map_map, Option.map_map] at this
  obtain ⟨ehdr, scns⟩ := e
  obtain ⟨ehdr', scns'⟩ := e'
  cases ehdr with
  | none =>
    obtain rfl : ehdr' = none := Option.map_eq_none_iff.mp hehdr
    rfl
  | some x =>
    cases ehdr' with
    | none => cases hehdr
    | some x' =>
      have hx : x'.eShstrndx = x.eShstrndx := Option.some.inj hehdr
      simp only [elfGetshdrstrndx, Option.bind_eq_bind, Option.bind_some, hx]
      rw [hlink']

/-- The names found depend on the table and the headers' names only. -/
theorem getSection_congr {e e' : Elf} {k : Nat} {tab : List UInt8} (hn : NameTable e k tab) (hn' : NameTable e' k tab)
    (hnames : e'.scns.map (·.shdr.shName) = e.scns.map (·.shdr.shName)) (sec : Name) : getSection e' sec = getSection e sec := by
  rw [getSection_eq hn', getSection_eq hn, List.map_tail, List.map_tail, hnames]

section
variable {d out : Elf} {k : Nat} {tab : List UInt8} (h : layout 4 d = .ok out)

include h in
theorem layout_ehdr : ∃ ehdr, d.ehdr = some ehdr ∧ out.ehdr = some { ehdr with eShoff := eShoff out } ∧ elf64Getehdr d = some ehdr ∧
    4 < d.scns.length := by
  unfold layout at h
  split at h
  · cases h
  · next hlen =>
    split at h
    · next scn ehdr _ hehdr =>
      obtain rfl := Except.ok.inj h
      exact ⟨ehdr, (Option.filter_eq_some_iff.mp hehdr).1, rfl, hehdr, by omega⟩
    · cases h

include h in
/-- A field that placing keeps. -/
theorem layout_map {α : Type} {g : Scn → α} (hg : ∀ (scn : Scn) off, g { scn with shdr := { scn.shdr with shOffset := off } } = g scn) :
    out.scns.map g = d.scns.map g := by
  apply List.ext_getElem?
  intro i
  rw [List.getElem?_map, List.getElem?_map]
  cases hi : d.scns[i]? with
  | none =>
    have hle := List.getElem?_eq_none_iff.mp hi
    rw [List.getElem?_eq_none (by rw [layout_length h]; exact hle)]
  | some scn =>
    obtain ⟨off, hoff⟩ := layout_getElem? h hi
    rw [hoff, Option.map_some, Option.map_some, hg]

include h in
theorem layout_shdrstrndx : elfGetshdrstrndx out = elfGetshdrstrndx d := by
  obtain ⟨ehdr, hd, ho, -⟩ := layout_ehdr h
  apply shdrstrndx_congr
  · rw [hd, ho]
    rfl
  · have hmap := congrArg List.head? (layout_map h (g := fun scn => scn.shdr.shLink) fun _ _ => rfl)
    rwa [List.head?_map, List.head?_map] at hmap

include h in
theorem layout_nameTable (hn : NameTable d k tab) : NameTable out k tab := by
  obtain ⟨shdr, hk, htype, hsize⟩ := hn.scn
  obtain ⟨off, hoff⟩ := layout_getElem? h hk
  exact ⟨(layout_shdrstrndx h).trans hn.index, hn.ne_zero, _, hoff, htype, hsize⟩

include h in
theorem layout_getSection (hn : NameTable d k tab) (sec : Name) : getSection out sec = getSection d sec :=
  getSection_congr hn (layout_nameTable h hn) (layout_map h fun _ _ => rfl) sec

include h in
theorem layout_sectionBytes (hn : NameTable d k tab) (sec : Name) : sectionBytes out sec = sectionBytes d sec := by
  unfold sectionBytes
  rw [layout_getSection h hn]
  cases getSection d sec with
  | none => rfl
  | some j =>
    have hmap := congrArg (·[j]?) (layout_map h (g := scnBytes) fun _ _ => rfl)
    rwa [List.getElem?_map, List.getElem?_map] at hmap

end

section
variable {out : Elf} {image : List UInt8}

theorem reopen_getElem? {j : Nat} {scn : Scn} (h : out.scns[j]? = some scn) :
    (reopen out image).scns[j]? = some ⟨scn.shdr, elfGetdata (fun _ b => some b) image scn.shdr⟩ := by
  simp only [reopen, cookScns, List.getElem?_map, h, Option.map_some]

variable (hl : LaidOut out) (hs : Sized out) (hf : FileOf out image)

include hl hs hf in
/-- What is read of a section that was written. -/
theorem reopen_data {scn : Scn} (hscn : scn ∈ out.scns) (ho : Occupies scn.shdr) :
    elfGetdata (fun _ b => some b) image scn.shdr = if scn.shdr.shSize = 0 then some none else some (some (scnBytes scn)) := by
  obtain ⟨m, hw, hm⟩ := hf.written
  have hin := hf.sections scn hscn ho.1
  have hread := written_section hl hs hw hscn
  rw [extent, if_pos ho] at hin hread
  rw [elfGetdata_load hm hf.small ho hin, hread]

include hl hs hf in
theorem reopen_scnBytes {scn : Scn} (hscn : scn ∈ out.scns) :
    scnBytes ⟨scn.shdr, elfGetdata (fun _ b => some b) image scn.shdr⟩ = scnBytes scn := by
  by_cases ho : Occupies scn.shdr
  · have hlen := hs scn hscn
    rw [extent, if_pos ho] at hlen
    rw [scnBytes, if_pos ho, reopen_data hl hs hf hscn ho]
    split
    · next hz =>
      rw [hz] at hlen
      exact (List.length_eq_zero_iff.mp hlen).symm
    · rfl
  · rw [scnBytes, if_neg ho, scnBytes, if_neg ho]

theorem nameTable_ne_nil {e : Elf} {k j : Nat} {tab : List UInt8} {sec : Name} (hn : NameTable e k tab) (h : getSection e sec = some j) :
    tab ≠ [] := by
  rintro rfl
  rw [getSection_eq hn] at h
  obtain ⟨off, -, -, hs⟩ := findName_getElem? h
  simp [stringAt] at hs

include hl hs hf in
theorem reopen_nameTable {k : Nat} {tab : List UInt8} (hn : NameTable out k tab) (hne : tab ≠ []) : NameTable (reopen out image) k tab := by
  obtain ⟨shdr, hk, htype, hsize⟩ := hn.scn
  have hmem := List.mem_of_getElem? hk
  have ho : Occupies shdr := by
    rw [Occupies, htype]
    decide
  have hlen := hs _ hmem
  rw [extent, if_pos ho, scnBytes, if_pos ho] at hlen
  have hz : shdr.shSize ≠ 0 := by
    intro hz
    rw [hz] at hlen
    exact hne (List.length_eq_zero_iff.mp hlen)
  refine ⟨?_, hn.ne_zero, shdr, ?_, htype, hsize⟩
  · rw [← hn.index]
    apply shdrstrndx_congr
    · rfl
    · rw [reopen, cookScns, List.map_map, List.head?_map, Option.map_map]
      rfl
  · rw [reopen_getElem? hk, reopen_data hl hs hf hmem ho, if_neg hz, scnBytes, if_pos ho]
    rfl

theorem reopen_names (out : Elf) (image : List UInt8) : (reopen out image).scns.map (·.shdr.shName) = out.scns.map (·.shdr.shName) := by
  simp only [reopen, cookScns, List.map_map, Function.comp_def]

include hl hs hf in
/-- Every section reads back as it was written. -/
theorem reopen_sectionBytes {k j : Nat} {tab : List UInt8} {sec : Name} (hn : NameTable out k tab) (hj : getSection out sec = some j) :
    sectionBytes (reopen out image) sec = sectionBytes out sec := by
  have hsame := getSection_congr hn (reopen_nameTable hl hs hf hn (nameTable_ne_nil hn hj)) (reopen_names out image) sec
  obtain ⟨scn, hscn⟩ : ∃ scn, out.scns[j]? = some scn := ⟨_, List.getElem?_eq_getElem (getSection_lt hj).2⟩
  rw [sectionBytes_eq hj hscn, sectionBytes_eq (hsame.trans hj) (reopen_getElem? hscn),
    reopen_scnBytes hl hs hf (List.mem_of_getElem? hscn)]

end

/-- What `elf_update` accepts fits a file. -/
theorem exists_file {out : Elf} (hu : ElfUpdate out) : ∃ image, FileOf out image := by
  have hbound : ∀ rs : List Range, (∀ r ∈ rs, r.1 + r.2 < 9223372036854775808) →
      ∃ n, n < 9223372036854775808 ∧ ∀ r ∈ rs, r.1 + r.2 ≤ n := by
    intro rs
    induction rs with
    | nil => exact fun _ => ⟨0, by decide, fun _ h => absurd h List.not_mem_nil⟩
    | cons r rs ih =>
      intro h
      rw [List.forall_mem_cons] at h
      obtain ⟨n, hn, hle⟩ := ih h.2
      refine ⟨max (r.1 + r.2) n, Nat.max_lt.mpr ⟨h.1, hn⟩, List.forall_mem_cons.mpr ⟨Nat.le_max_left _ _, fun x hx => ?_⟩⟩
      exact (hle x hx).trans (Nat.le_max_right _ _)
  obtain ⟨n, hn, hle⟩ := hbound _ hu.2
  have hlen (m : Mem) : (load m 0 n).length = n := load_length m 0 n
  let table := List.replicate (sizeofShdr * out.scns.length) (0 : UInt8)
  let m := storeAll (fun _ => 0) (writes out table)
  refine ⟨load m 0 n, ⟨m, ⟨fun _ => 0, table, _, List.length_replicate, List.Perm.refl _, rfl⟩, by rw [hlen]⟩, ?_, ?_, by rwa [hlen]⟩
  · intro scn hscn _
    rw [hlen]
    exact hle _ (List.mem_append_left _ (List.mem_map_of_mem hscn))
  · rw [hlen]
    exact hle _ (List.mem_append_right _ List.mem_cons_self)

/-! ## A linked file -/

/-- Section `i` of the file is the table of functions. Every name ends inside the table of names, and a
    metadata section that the file has already has bytes in it. -/
structure Linked (f : ElfFile) (i : Nat) (s : Shdr) (t : List UnwindAddr) : Prop where
  index : getSection f.elf unwindName = some i
  shdr : f.shdrs[i]? = some s
  occupies : Occupies s
  entsize : s.shEntsize = 16
  contents : f.contents s = tableBytes t
  apart : elfGetshdrstrndx f.elf ≠ some i
  named : ∀ k tab, NameTable f.elf k tab → Named f.elf tab
  metadata : ∀ name ∈ metaNames, ∀ j s', getSection f.elf name = some j → f.shdrs[j]? = some s' → Occupies s'

/-- The table that `update_function_addr` leaves. -/
def newTable (t : List UnwindAddr) : List UnwindAddr := qsortUnwindAddr (updateOffsets 0 t)

theorem newTable_length (t : List UnwindAddr) : (newTable t).length = t.length := by
  have hr := congrArg List.length (updateOffsets_range t 0)
  rw [List.length_map, List.length_map] at hr
  exact (qsortUnwindAddr_perm _).length_eq.trans hr

theorem newTable_ne {t : List UnwindAddr} (h : t ≠ []) : newTable t ≠ [] := by
  intro hnil
  have hlen := newTable_length t
  rw [hnil] at hlen
  exact h (List.length_eq_zero_iff.mp hlen.symm)

/-- The file with the new table in place. -/
structure Updated (f f' : ElfFile) (i : Nat) (s : Shdr) (t : List UnwindAddr) : Prop where
  size : f'.image.length = f.image.length
  ehdr : f'.ehdr = f.ehdr
  shdrs : f'.shdrs = f.shdrs
  update : updateFunctionAddr unwindName f.elf = .ok f'.elf
  linked : Linked f' i s (newTable t)
  strndx : elfGetshdrstrndx f'.elf = elfGetshdrstrndx f.elf
  names : ∀ sec, getSection f'.elf sec = getSection f.elf sec
  kept : ∀ j ≠ i, f'.elf.scns[j]? = f.elf.scns[j]?

section
variable {f : ElfFile} {i : Nat} {s : Shdr} {t : List UnwindAddr} (h : Linked f i s t)

include h in
theorem Linked.size : s.shSize.toNat = sizeofUnwindAddr * t.length := by
  have hlen := contents_length f (List.mem_of_getElem? h.shdr)
  rw [extent, if_pos h.occupies, h.contents, tableBytes_length] at hlen
  exact hlen.symm

include h in
theorem Linked.holds (hne : t ≠ []) : HoldsTable ⟨s, elfGetdata (fun _ b => some b) f.image s⟩ t := by
  have hpos := List.length_pos_of_ne_nil hne
  have hz : s.shSize ≠ 0 := by
    intro hz
    have hsize := h.size
    rw [hz] at hsize
    change 0 = 16 * t.length at hsize
    omega
  refine ⟨?_, h.size, h.entsize, hne⟩
  rw [elfGetdata_occupies f (List.mem_of_getElem? h.shdr) h.occupies, if_neg hz, h.contents]

include h in
/-- The reads of `add_sections`. -/
theorem Linked.read (hne : t ≠ []) : ∃ n, readUnwind f.elf unwindName = .ok (tableBytes t, n) ∧ n.toNat = t.length := by
  have ht := h.holds hne
  have hnz : ¬ (s.shSize = 0 ∨ s.shEntsize = 0) := by
    rw [h.entsize]
    exact not_or.mpr ⟨ht.size_ne, by decide⟩
  refine ⟨s.shSize / s.shEntsize, ?_, ht.count⟩
  have hdata : elfGetdata (fun _ b => some b) f.image s = some (some (tableBytes t)) := ht.data
  simp only [readUnwind, h.index, Option.bind_some, elf_getElem? h.shdr, if_neg hnz, hdata, Option.join_some]

include h in
/-- `update_function_addr` on a linked file. -/
theorem Linked.updated (hne : t ≠ []) : ∃ f', Updated f f' i s t := by
  have ht := h.holds hne
  have hscn := elf_getElem? h.shdr
  have hlen : (tableBytes (newTable t)).length = s.shSize.toNat := by rw [tableBytes_length, newTable_length, h.size]
  obtain ⟨f', hsize, hehdr, hshdrs, helf⟩ := exists_patched f h.shdr h.occupies ht.size_ne h.apart hlen
  have hstr : elfGetshdrstrndx f'.elf = elfGetshdrstrndx f.elf := by
    rw [helf]
    apply shdrstrndx_set
    intro s' hs'
    obtain rfl := Option.some.inj (hscn.symm.trans hs')
    rfl
  have hnames (sec : Name) : getSection f'.elf sec = getSection f.elf sec := by
    rw [helf]
    exact getSection_set hscn h.apart sec
  have hnew : f'.elf.scns[i]? = some ⟨s, some (some (tableBytes (newTable t)))⟩ := by
    rw [helf, List.getElem?_set_self (List.getElem?_eq_some_iff.mp hscn).1]
  have hshdr : f'.shdrs[i]? = some s := by rw [hshdrs, h.shdr]
  have hkept (j : Nat) (hj : j ≠ i) : f'.elf.scns[j]? = f.elf.scns[j]? := by
    rw [helf]
    exact List.getElem?_set_ne (Ne.symm hj)
  refine ⟨f', hsize, hehdr, hshdrs, ?_, ⟨by rw [hnames, h.index], hshdr, h.occupies, h.entsize, ?_, by rw [hstr]; exact h.apart, ?_, ?_⟩, hstr,
    hnames, hkept⟩
  · rw [updateFunctionAddr_table h.index hscn ht, helf]
    rfl
  · have hold := elf_getElem? hshdr
    rw [hnew] at hold
    have hbytes := scnBytes_elf f' (List.mem_of_getElem? hshdr)
    rw [← Option.some.inj hold, scnBytes, if_pos h.occupies] at hbytes
    exact hbytes.symm
  · -- the table of names is another section
    intro k tab hn
    have hki : i ≠ k := by
      rintro rfl
      exact h.apart (hstr ▸ hn.index)
    obtain ⟨shdr, hk, htype⟩ := hn.scn
    rw [helf, List.getElem?_set_ne hki] at hk
    have hnamed := h.named k tab ⟨hstr ▸ hn.index, hn.ne_zero, shdr, hk, htype⟩
    have hmap : (f.elf.scns.set i ⟨s, some (some (tableBytes (newTable t)))⟩).map (·.shdr.shName) = f.elf.scns.map (·.shdr.shName) :=
      map_set_same hscn rfl
    unfold Named at hnamed ⊢
    rw [helf]
    rw [List.map_tail, hmap, ← List.map_tail]
    exact hnamed
  · intro name hname j s' hj hs'
    rw [hnames] at hj
    rw [hshdrs] at hs'
    exact h.metadata name hname j s' hj hs'

end

/-! ## The metadata as bytes -/

theorem readArray_table (t : List UnwindAddr) : readArray sizeofUnwindAddr readUnwindAddr (memOf (tableBytes t)) 0 t.length = t := by
  have hread : readArray sizeofUnwindAddr readUnwindAddr (memOf (tableBytes t)) 0 t.length = t.map id :=
    array_read UnwindAddr.bytes_length fun ua _ m a hat => readUnwindAddr_bytes hat
  rwa [List.map_id] at hread

/-- `create_call_site_metadata` reads the table. -/
theorem createMetadata_table {arch : Arch} {sm : List StackMapSection} {startId : UInt64} {padding : Nat → UInt16} {t : List UnwindAddr}
    {n : UInt64} (hn : n.toNat = t.length) {b : Buffers} : createMetadata arch sm startId padding (tableBytes t) n = some b ↔
      ∃ md, createCallSiteMetadata arch startId sm t = .ok md ∧ metadataBuffers padding md = some b := by
  rw [createMetadata, hn, readArray_table]
  cases createCallSiteMetadata arch startId sm t with
  | error _ => simp
  | ok md => simp

theorem paddedSites_map (padding : Nat → UInt16) (sites : List CallSite) : (paddedSites padding sites).map Prod.fst = sites := by
  rw [paddedSites, List.map_map]
  exact List.zipIdx_map_fst 0 sites

theorem sortedById_length (sites : List (CallSite × UInt16)) : (sortedById sites).length = sites.length := List.length_insertionSort _ _

theorem sortedByAddr_length (sites : List (CallSite × UInt16)) : (sortedByAddr sites).length = sites.length :=
  List.length_insertionSort _ _

theorem siteBytes_length (sites : List (CallSite × UInt16)) : (siteBytes sites).length = sizeofCallSite * sites.length :=
  flatMap_length sites fun s => s.1.bytes_length s.2

theorem paddedSites_length (padding : Nat → UInt16) (sites : List CallSite) : (paddedSites padding sites).length = sites.length := by
  rw [paddedSites, List.length_map, List.length_zipIdx]

/-- What the buffers hold. -/
structure BufferedAs (padding : Nat → UInt16) (md : CallSiteMetadata) (b : Buffers) : Prop where
  idSites : b.idSites = siteBytes (sortedById (paddedSites padding md.sites))
  addrSites : b.addrSites = siteBytes (sortedByAddr (sortedById (paddedSites padding md.sites)))
  liveVals : b.liveVals = md.live.flatMap LiveValue.bytes
  archlive : b.archlive = md.archLive.flatMap ArchLiveValue.bytes

theorem metadataBuffers_some {padding : Nat → UInt16} {md : CallSiteMetadata} {b : Buffers} (h : metadataBuffers padding md = some b) :
    BufferedAs padding md b := by
  unfold metadataBuffers at h
  dsimp only at h
  split at h
  · obtain rfl := Option.some.inj h
    exact ⟨rfl, rfl, rfl, rfl⟩
  · cases h

theorem BufferedAs.lengths {padding : Nat → UInt16} {md : CallSiteMetadata} {b : Buffers} (h : BufferedAs padding md b) :
    b.idSites.length = sizeofCallSite * md.sites.length ∧ b.addrSites.length = sizeofCallSite * md.sites.length := by
  rw [h.idSites, h.addrSites, siteBytes_length, siteBytes_length, sortedByAddr_length, sortedById_length, paddedSites_length]
  exact ⟨rfl, rfl⟩

/-- The names and the sizes of sections. -/
def sizes (its : List Item) : List (Name × Nat) := its.map fun it => (it.name, it.buf.length)

/-- As many records are made as the stackmaps have. -/
theorem metadata_lengths {arch : Arch} {startId : UInt64} {sm : List StackMapSection} {t : List UnwindAddr} {md : CallSiteMetadata}
    (h : createCallSiteMetadata arch startId sm t = .ok md) :
    md.sites.length = sitesNum sm ∧ md.live.length = locNum sm ∧ md.archLive.length = archNum sm := by
  obtain ⟨st, hb, rfl⟩ := create_built h
  refine ⟨?_, ?_, ?_⟩
  · rw [← records_length]
    exact hb.length
  · show st.locs.length = locNum sm
    rw [hb.locs, List.length_flatMap]
    rfl
  · show st.archlive.length = archNum sm
    rw [hb.archlive, List.length_flatMap]
    rfl

/-- The sizes of what is written follow from the stackmaps. -/
theorem BufferedAs.sizes {arch : Arch} {startId : UInt64} {sm : List StackMapSection} {t : List UnwindAddr} {padding : Nat → UInt16}
    {md : CallSiteMetadata} {b : Buffers} (h : BufferedAs padding md b) (hmd : createCallSiteMetadata arch startId sm t = .ok md) :
    sizes (items sectionPrefix b) = sizes (blankItems (sitesNum sm) (locNum sm) (archNum sm)) := by
  obtain ⟨hid, haddr⟩ := h.lengths
  obtain ⟨hsites, hlive, harch⟩ := metadata_lengths hmd
  have hlive' : b.liveVals.length = sizeofLiveValue * locNum sm := by rw [h.liveVals, flatMap_length _ LiveValue.bytes_length, hlive]
  have harch' : b.archlive.length = sizeofArchLiveValue * archNum sm := by rw [h.archlive, flatMap_length _ ArchLiveValue.bytes_length, harch]
  simp only [Layout.sizes, items, blankItems, List.map_cons, List.map_nil, List.length_replicate, hid, haddr, hsites, hlive', harch']

/-! ## A run -/

/-- What a run that succeeds went through. -/
structure Ran (arch : Arch) (sm : List StackMapSection) (startId : UInt64) (padding : Nat → UInt16) (f f' : ElfFile) (i : Nat) (s : Shdr)
    (t : List UnwindAddr) (md : CallSiteMetadata) (b : Buffers) (d out : Elf) : Prop where
  ne : t ≠ []
  updated : Updated f f' i s t
  created : createCallSiteMetadata arch startId sm (newTable t) = .ok md
  buffers : metadataBuffers padding md = some b
  sections : (items sectionPrefix b).foldlM writeSection f'.elf = .ok d
  layout : layout 4 d = .ok out
  update : ElfUpdate out

section
variable {arch : Arch} {sm : List StackMapSection} {startId : UInt64} {padding : Nat → UInt16} {f f' : ElfFile} {i : Nat} {s : Shdr}
  {t : List UnwindAddr} {md : CallSiteMetadata} {b : Buffers} {d out : Elf} (h : Linked f i s t)

include h in
theorem Linked.ran (hrun : genStackinfo arch sm startId padding f.elf = .ok out) :
    ∃ f' md b d, Ran arch sm startId padding f f' i s t md b d out := by
  have hne : t ≠ [] := by
    rintro rfl
    have hz : s.shSize = 0 := UInt64.toNat_inj.mp (by rw [h.size]; rfl)
    obtain ⟨e, he, -⟩ := bind_ok.mp hrun
    simp only [updateFunctionAddr, h.index, elf_getElem? h.shdr, hz, true_or, if_true] at he
    cases he
  obtain ⟨f', hf'⟩ := h.updated hne
  obtain ⟨e, he, hrun⟩ := bind_ok.mp hrun
  obtain rfl := Except.ok.inj (hf'.update.symm.trans he)
  obtain ⟨unwind, n, b, d, hread, hb, hd, hout, hu⟩ := addSections_steps.mp hrun
  obtain ⟨n', hread', hn⟩ := hf'.linked.read (newTable_ne hne)
  obtain ⟨rfl, rfl⟩ := Prod.mk.inj (Except.ok.inj (hread'.symm.trans hread))
  obtain ⟨md, hmd, hbuf⟩ := (createMetadata_table hn).mp hb
  exact ⟨f', md, b, d, hne, hf', hmd, hbuf, hd, hout, hu⟩

theorem Ran.run (hr : Ran arch sm startId padding f f' i s t md b d out) : genStackinfo arch sm startId padding f.elf = .ok out := by
  obtain ⟨n, hread, hn⟩ := hr.updated.linked.read (newTable_ne hr.ne)
  exact bind_ok.mpr ⟨f'.elf, hr.updated.update,
    addSections_steps.mpr ⟨_, n, b, d, hread, (createMetadata_table hn).mpr ⟨md, hr.created, hr.buffers⟩, hr.sections, hr.layout, hr.update⟩⟩

variable (hr : Ran arch sm startId padding f f' i s t md b d out)

include hr in
/-- The sections by name once they are in place. -/
theorem Ran.filled : ∃ k tab, NameTable f'.elf k tab ∧ tab.length + 128 < 4294967296 ∧ Grown f'.elf d (items sectionPrefix b) ∧
    Filled f'.elf d (items sectionPrefix b) k tab := by
  obtain ⟨k, tab, hn, hfit⟩ := nameTable_of_found hr.updated.linked.index
  have hsum := items_sum b
  refine ⟨k, tab, hn, hfit, ?_, ?_⟩
  · exact grown_items hn (items_ok b) (items_distinct b) (items_apart f' b hn) (by omega) hr.sections
  · exact filled_items hn (hr.updated.linked.named k tab hn) (items_ok b) (items_distinct b) (items_apart f' b hn) (by omega) hr.sections

theorem unwindName_ne (b : Buffers) : ∀ it ∈ items sectionPrefix b, it.name ≠ unwindName := by
  have hne : ∀ name ∈ metaNames, name ≠ unwindName := by decide
  exact fun it hit => hne it.name (item_name hit)

include hr in
/-- The table of functions is left as it is. -/
theorem Ran.table : getSection d unwindName = some i ∧ d.scns[i]? = some ⟨s, some (some (tableBytes (newTable t)))⟩ := by
  obtain ⟨k, tab, hn, -, hg, hfill⟩ := hr.filled
  have hl := hr.updated.linked
  have hdata : elfGetdata (fun _ b => some b) f'.image s = some (some (tableBytes (newTable t))) := (hl.holds (newTable_ne hr.ne)).data
  have hscn := elf_getElem? hl.shdr
  rw [hdata] at hscn
  refine ⟨by rw [hfill.other _ (unwindName_ne b), hl.index], hg.kept i _ hscn hl.apart ?_⟩
  intro it hit h
  exact unwindName_ne b it hit (getSection_inj hn h hl.index)

include hr in
/-- A metadata section has the bytes that were put into it. -/
theorem Ran.placed {it : Item} (hit : it ∈ items sectionPrefix b) :
    ∃ j scn, Placed f'.elf d it j scn ∧ Occupies scn.shdr ∧ scnBytes scn = it.buf := by
  obtain ⟨k, tab, hn, -, hg, hfill⟩ := hr.filled
  obtain ⟨j, scn, hp⟩ := hfill.placed it hit
  have ho : Occupies scn.shdr := by
    obtain ⟨-, htype, -⟩ | ⟨s', hj, hs', htype, -⟩ := hp.shdr
    · rw [Occupies, htype]
      decide
    · have hou := hr.updated.linked.metadata it.name (item_name hit) j s'.shdr hj (shdr_of_elf hs')
      rw [Occupies, htype]
      exact hou
  refine ⟨j, scn, hp, ho, ?_⟩
  rw [scnBytes, if_pos ho, hp.data]
  rfl

include hr in
theorem Ran.sized : Sized out := by
  obtain ⟨k, tab, -, -, hg, -⟩ := hr.filled
  exact layout_sized hr.layout (hg.sized (sized_elf f'))

include hr in
/-- The written file holds the table and the metadata. -/
theorem Ran.contents (hl : LaidOut out) {image : List UInt8} (hf : FileOf out image) :
    sectionBytes (reopen out image) unwindName = some (tableBytes (newTable t)) ∧
      ∀ it ∈ items sectionPrefix b, sectionBytes (reopen out image) it.name = some it.buf := by
  obtain ⟨k, tab, -, -, hg, hfill⟩ := hr.filled
  obtain ⟨tab', hn, -, -⟩ := hfill.table
  have hback {sec : Name} {j : Nat} (hj : getSection d sec = some j) : sectionBytes (reopen out image) sec = sectionBytes d sec := by
    rw [← layout_sectionBytes hr.layout hn]
    refine reopen_sectionBytes hl hr.sized hf (layout_nameTable hr.layout hn) (j := j) ?_
    rw [layout_getSection hr.layout hn, hj]
  constructor
  · obtain ⟨hi, hscn⟩ := hr.table
    rw [hback hi, sectionBytes_eq hi hscn, scnBytes, if_pos hr.updated.linked.occupies]
    rfl
  · intro it hit
    obtain ⟨j, scn, hp, -, hbytes⟩ := hr.placed hit
    rw [hback hp.index, sectionBytes_eq hp.index hp.present, hbytes]

/-- Where the sections are placed depends on the headers and the names. -/
theorem placement_congr {its : List Item} (hshdrs : f'.shdrs = f.shdrs) (hstr : elfGetshdrstrndx f'.elf = elfGetshdrstrndx f.elf)
    (hnames : ∀ sec, getSection f'.elf sec = getSection f.elf sec) :
    keptSections f' its = keptSections f its ∧ moved f' its = moved f its := by
  have hmiss : missing f'.elf its = missing f.elf its := missing_congr fun it _ => hnames it.name
  have hsize (j : Nat) (u : Shdr) : grownSize f'.elf its j u = grownSize f.elf its j u := by
    rw [grownSize, grownSize, hstr, hmiss, find_congr fun it _ => hnames it.name]
  have hheaders : headersWith f'.elf its = headersWith f.elf its := by
    rw [headersWith, headersWith, hmiss]
    congr 1
    apply List.ext_getElem?
    intro j
    simp only [ElfFile.elf, openElf, cookScns, List.getElem?_mapIdx, List.getElem?_map, hshdrs, Option.map_map]
    cases f.shdrs[j]? with
    | none => rfl
    | some u =>
      have := hsize j u
      simp only [ElfFile.elf, openElf, cookScns, hshdrs] at this
      simp only [Option.map_some, Function.comp_apply, this]
  constructor
  · simp only [keptSections, hshdrs, hmiss, hsize]
  · simp only [moved, lastFour, hheaders, hshdrs, hmiss]

/-- Of the sections to be written only the names and sizes matter. -/
theorem placement_sizes {its its' : List Item} (h : sizes its = sizes its') :
    keptSections f its = keptSections f its' ∧ moved f its = moved f its' := by
  have hmiss : sizes (missing f.elf its) = sizes (missing f.elf its') := by
    have hfilter (its : List Item) : sizes (missing f.elf its) = (sizes its).filter fun p => (getSection f.elf p.1).isNone := by
      rw [sizes, sizes, List.filter_map]
      rfl
    rw [hfilter, hfilter, h]
  have hnum : (missing f.elf its).length = (missing f.elf its').length := by
    have := congrArg List.length hmiss
    rwa [sizes, sizes, List.length_map, List.length_map] at this
  have hsize (j : Nat) (u : Shdr) : grownSize f.elf its j u = grownSize f.elf its' j u := by
    have hnames : (missing f.elf its).map (·.name.length + 1) = (missing f.elf its').map (·.name.length + 1) := by
      have := congrArg (List.map fun p : Name × Nat => p.1.length + 1) hmiss
      rwa [sizes, sizes, List.map_map, List.map_map] at this
    have hfound : (its.find? (getSection f.elf ·.name = some j)).map (·.buf.length) =
        (its'.find? (getSection f.elf ·.name = some j)).map (·.buf.length) := by
      have := congrArg (fun ps => (List.find? (fun p : Name × Nat => decide (getSection f.elf p.1 = some j)) ps).map Prod.snd) h
      simp only [sizes, List.find?_map, Option.map_map] at this
      exact this
    rw [grownSize, grownSize, hnames]
    split
    · rfl
    · cases h1 : its.find? (getSection f.elf ·.name = some j) <;> cases h2 : its'.find? (getSection f.elf ·.name = some j) <;>
        simp_all
  have hheaders : headersWith f.elf its = headersWith f.elf its' := by
    have hnew := congrArg (List.map fun p : Name × Nat => (⟨true, 0, UInt64.ofNat p.2⟩ : Slot)) hmiss
    rw [sizes, sizes, List.map_map, List.map_map] at hnew
    simp only [headersWith, hsize]
    exact congrArg _ hnew
  constructor
  · simp only [keptSections, hnum, hsize]
  · simp only [moved, lastFour, hheaders, hnum]

theorem hasRoom_congr {its its' : List Item} (h : keptSections f' its' = keptSections f its ∧ moved f' its' = moved f its) :
    HasRoom f' its' ↔ HasRoom f its := by
  obtain ⟨hkept, hmoved⟩ := h
  constructor
  · exact fun hroom => ⟨hkept ▸ hroom.grows, hkept ▸ hmoved ▸ hroom.behind, hmoved ▸ hroom.inOrder⟩
  · exact fun hroom => ⟨hkept.symm ▸ hroom.grows, hkept.symm ▸ hmoved.symm ▸ hroom.behind, hmoved.symm ▸ hroom.inOrder⟩

/-- The places follow from the file and the stackmaps. -/
theorem Updated.placement (hf' : Updated f f' i s t) (hmd : createCallSiteMetadata arch startId sm (newTable t) = .ok md)
    (hb : metadataBuffers padding md = some b) :
    keptSections f' (items sectionPrefix b) = keptSections f (blankItems (sitesNum sm) (locNum sm) (archNum sm)) ∧
      moved f' (items sectionPrefix b) = moved f (blankItems (sitesNum sm) (locNum sm) (archNum sm)) := by
  obtain ⟨h1, h2⟩ := placement_congr hf'.shdrs hf'.strndx hf'.names
  obtain ⟨h3, h4⟩ := placement_sizes (f := f) ((metadataBuffers_some hb).sizes hmd)
  exact ⟨h1.trans h3, h2.trans h4⟩

include hr in
/-- The written file is laid out just when there was room for as many records as the stackmaps have. -/
theorem Ran.room_iff : LaidOut out ↔ HasRoom f (blankItems (sitesNum sm) (locNum sm) (archNum sm)) := by
  obtain ⟨k, tab, -, -, hg, -⟩ := hr.filled
  have hext : extents out = (stays (headersWith f'.elf (items sectionPrefix b))).map Slot.extent ++
      placedExtents (headersWith f'.elf (items sectionPrefix b)) := by rw [layout_extents hr.layout, hg.headers]
  have hfour : (items sectionPrefix b).length ≤ 4 := Nat.le_refl 4
  rw [laidOut_iff hfour hext, hasRoom_congr (hr.updated.placement hr.created hr.buffers)]

end

/-! ## Runs that succeed -/

theorem layout_some {d : Elf} {ehdr : Ehdr} (hlen : 4 < d.scns.length) (he : elf64Getehdr d = some ehdr) : ∃ out, layout 4 d = .ok out := by
  obtain ⟨scn, hlast⟩ : ∃ scn, d.scns[d.scns.length - 5]? = some scn := ⟨_, List.getElem?_eq_getElem (by omega)⟩
  unfold layout
  rw [if_neg (by omega), hlast, he]
  exact ⟨_, rfl⟩

theorem elfGetdata_isSome {image : List UInt8} {u : Shdr} (hsmall : image.length < 9223372036854775808) (htype : u.shType ≠ shtNull)
    (hin : u.shOffset.toNat + (extent u).2 ≤ image.length) : (elfGetdata (fun _ b => some b) image u).isSome = true := by
  by_cases ho : Occupies u
  · rw [extent, if_pos ho] at hin
    rw [elfGetdata_load (image_load image).symm hsmall ho hin]
    split <;> rfl
  · have hbits : u.shType = shtNobits := by
      by_contra hb
      exact ho ⟨htype, hb⟩
    have hlen : (UInt64.ofNat image.length).toNat = image.length := by
      rw [UInt64.toNat_ofNat', Nat.mod_eq_of_lt (by omega)]
    have hoff : ¬ UInt64.ofNat image.length < u.shOffset := by
      rw [UInt64.lt_iff_toNat_lt, hlen]
      omega
    have hnull : shtNobits ≠ shtNull := by decide
    simp only [elfGetdata, hbits, if_neg hnull, if_neg hoff, true_or, if_true, Option.isSome_some]

/-- `elf_update` reads what was read before, or written. -/
theorem layout_data {e d out : Elf} (hlay : layout 4 d = .ok out)
    (hd : ∀ (j : Nat) (scn : Scn), d.scns[j]? = some scn → scn.data.isSome ∨ e.scns[j]? = some scn)
    (he : ∀ scn ∈ e.scns, scn.shdr.shType ≠ shtNull → scn.data.isSome) :
    ∀ scn ∈ out.scns.tail, scn.shdr.shType ≠ shtNull → scn.data.isSome := by
  intro scn hscn htype
  obtain ⟨q, hq⟩ := List.mem_iff_getElem?.mp (List.mem_of_mem_tail hscn)
  have hqlt := (List.getElem?_eq_some_iff.mp hq).1
  rw [layout_length hlay] at hqlt
  obtain ⟨off, hoff⟩ := layout_getElem? hlay (List.getElem?_eq_getElem hqlt)
  obtain rfl := Option.some.inj (hq.symm.trans hoff)
  rcases hd q _ (List.getElem?_eq_getElem hqlt) with hsome | hold
  · exact hsome
  · have hmem := List.mem_of_getElem? hold
    exact he d.scns[q] hmem htype

/-- Every section begins inside the file. -/
def Readable (f : ElfFile) : Prop := ∀ u ∈ f.shdrs, u.shType ≠ shtNull → u.shOffset.toNat ≤ f.image.length

theorem Readable.data {f : ElfFile} (h : Readable f) : ∀ scn ∈ f.elf.scns, scn.shdr.shType ≠ shtNull → scn.data.isSome := by
  intro scn hscn htype
  obtain ⟨u, hu, rfl⟩ := List.mem_map.mp hscn
  apply elfGetdata_isSome f.small htype
  by_cases ho : Occupies u
  · rw [extent, if_pos ho]
    exact f.inFile u hu ho
  · rw [extent, if_neg ho]
    exact h u hu htype

section
variable {arch : Arch} {sm : List StackMapSection} {startId : UInt64} {padding : Nat → UInt16} {f f' : ElfFile} {i : Nat} {s : Shdr}
  {t : List UnwindAddr} {md : CallSiteMetadata} {b : Buffers}

/-- The tool writes a file that libelf can read, as long as no range ends past the largest `off_t`. -/
theorem Updated.ran (hf' : Updated f f' i s t) (hne : t ≠ []) (hmd : createCallSiteMetadata arch startId sm (newTable t) = .ok md)
    (hb : metadataBuffers padding md = some b) (hclass : f.ehdr.eiClass = elfclass64) (hread : Readable f)
    (hfound : ∀ it ∈ items sectionPrefix b, ∀ j u, getSection f.elf it.name = some j → f.shdrs[j]? = some u → Occupies u)
    (hlen : 4 < f.shdrs.length + (missing f.elf (items sectionPrefix b)).length)
    (hbound : ∀ r ∈ (stays (headersWith f'.elf (items sectionPrefix b))).map Slot.extent ++
      placedExtents (headersWith f'.elf (items sectionPrefix b)), r.1 + r.2 < 9223372036854775808) :
    ∃ d out, Ran arch sm startId padding f f' i s t md b d out := by
  have hlinked := hf'.linked
  obtain ⟨k, tab, hn, hfit⟩ := nameTable_of_found hlinked.index
  have hsum := items_sum b
  have hok : ∀ it ∈ items sectionPrefix b, it.Ok := fun it hit => (items_ok b it hit).1
  obtain ⟨d, hd, hehdr, hdata⟩ := writes_ok hn (nameTable_ne_nil hn hlinked.index) hok (items_distinct b) (fun it hit j hj => by
    have hjk : j ≠ k := fun h => items_apart f' b hn it hit (by rw [hj, h])
    rw [hf'.names] at hj
    have hjlt := (getSection_lt hj).2
    obtain ⟨u, hu⟩ : ∃ u, f.shdrs[j]? = some u := by
      refine ⟨_, List.getElem?_eq_getElem ?_⟩
      simpa [ElfFile.elf, openElf, cookScns] using hjlt
    have ho := hfound it hit j u hj hu
    rw [← hf'.shdrs] at hu
    have hscn := elf_getElem? hu
    rw [elfGetdata_occupies f' (List.mem_of_getElem? hu) ho] at hscn
    refine ⟨hjk, u, if u.shSize = 0 then none else some (f'.contents u), ?_⟩
    rw [hscn]
    split <;> rfl) (by omega)
  have hg := grown_items hn (items_ok b) (items_distinct b) (items_apart f' b hn) (by omega) hd
  have hlen' : 4 < d.scns.length := by
    have := congrArg List.length hg.headers
    have hmiss : missing f'.elf (items sectionPrefix b) = missing f.elf (items sectionPrefix b) := missing_congr fun it _ => hf'.names it.name
    rw [List.length_map, headersWith_length, hmiss, hf'.shdrs] at this
    omega
  have hehdr' : elf64Getehdr d = some f.ehdr := by
    have hsrc : f'.elf.ehdr = some f.ehdr := congrArg some hf'.ehdr
    rw [elf64Getehdr, hehdr, hsrc]
    exact Option.filter_eq_some_iff.mpr ⟨rfl, decide_eq_true hclass⟩
  obtain ⟨out, hout⟩ := layout_some hlen' hehdr'
  have hread' : Readable f' := by
    unfold Readable
    rw [hf'.shdrs, hf'.size]
    exact hread
  refine ⟨d, out, hne, hf', hmd, hb, hd, hout, layout_data hout hdata hread'.data, ?_⟩
  rw [layout_extents hout, hg.headers]
  exact hbound

end

end Popcorn.Metadata.Layout
