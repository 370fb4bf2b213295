import KlaussRuntime.Loader.Effects

/-!
# Loader/Complete — whether all of a program was loaded

`load_elf` returns when a segment cannot be read, but goes on when a header cannot be read, and leaves
a relocation section at the first entry that cannot.  So a program it returns 0 for is complete
exactly when every entry of the tables it goes through can be read (`loadElfSaying_complete_iff`).

When nothing fails the loops are folds, and the state after them is known: the segments stored one
after the other (`loadSegments_eq`), and then the fields of all relocations added to
(`relocate_eq`).
-/

namespace KlaussRuntime.Loader

open Machinery

variable {f : File} {eh : Ehdr} {delta : ℤ} {st : LoadSt} {i j : ℕ} {sh : Shdr} {loadBase : ℕ}

/-! ## When nothing fails -/

/-- **All segments** are stored, one after the other. -/
theorem loadSegments_eq (hall : ∀ i < eh.phnum, segmentOk f eh i = true) (delta : ℤ) (st : LoadSt) :
    loadSegments f eh delta st
      = st.storeAll ((List.range eh.phnum).flatMap (segmentStores f eh delta)) := by
  have hfold := (steady_loadSegment f eh delta).loopWhile_eq_foldl (l := List.range eh.phnum)
    (List.all_eq_true.mpr fun i hi => hall i (List.mem_range.mp hi)) st
  rw [loadSegments, hfold, LoadSt.storeAll, List.foldl_flatMap]
  simp only [loadSegment_eq]
  rfl

/-- Add to a list of fields, each for the relocation given with it. -/
def LoadSt.bumpAll (st : LoadSt) (delta : ℤ) (l : List ((ℕ × ℕ) × ℕ × ℕ)) : LoadSt :=
  l.foldl (fun st x => { st.bump x.2.1 x.2.2 delta with applied := st.applied ++ [x.1] }) st

theorem LoadSt.applied_bumpAll (st : LoadSt) (delta : ℤ) (l : List ((ℕ × ℕ) × ℕ × ℕ)) :
    (st.bumpAll delta l).applied = st.applied ++ l.map Prod.fst := by
  induction l generalizing st with
  | nil => rw [List.map_nil, List.append_nil]; rfl
  | cons x l ih =>
    rw [bumpAll, List.foldl_cons]
    refine (ih _).trans ?_
    rw [List.map_cons, List.append_assoc]
    rfl

theorem LoadSt.mem_bumpAll (st : LoadSt) (delta : ℤ) (l : List ((ℕ × ℕ) × ℕ × ℕ)) :
    (st.bumpAll delta l).mem = st.mem.bumpAll delta (l.map Prod.snd) := by
  induction l generalizing st with
  | nil => rfl
  | cons x l ih =>
    rw [bumpAll, List.foldl_cons]
    refine (ih _).trans ?_
    rw [List.map_cons, Mem.bumpAll, Mem.bumpAll, List.foldl_cons]
    congr 1
    exact st.mem_storeAll [(x.2.1, _)]

theorem LoadSt.stores_bumpAll (st : LoadSt) (delta : ℤ) (l : List ((ℕ × ℕ) × ℕ × ℕ)) :
    st.stores <+: (st.bumpAll delta l).stores := by
  induction l generalizing st with
  | nil => exact List.prefix_rfl
  | cons x l ih =>
    rw [bumpAll, List.foldl_cons]
    refine List.IsPrefix.trans ?_ (ih _)
    exact List.prefix_append st.stores _

/-- The relocations of a section that is applied, each with its field. -/
def sectionFields (f : File) (eh : Ehdr) (delta : ℤ) (i : ℕ) : List ((ℕ × ℕ) × ℕ × ℕ) :=
  (relaSection f eh i).toList.flatMap fun sh =>
    (List.range (sh.size / sh.entsize)).filterMap fun j =>
      (relaField f delta sh i j).map fun fld => ((i, j), fld)

/-- All relocations of the file. -/
def fileFields (f : File) (eh : Ehdr) (delta : ℤ) : List ((ℕ × ℕ) × ℕ × ℕ) :=
  (List.range eh.shnum).flatMap (sectionFields f eh delta)

/-- Every entry of the section, if it is one whose entries are applied, can be read. -/
def SectionRead (f : File) (eh : Ehdr) (i : ℕ) : Prop :=
  ∀ sh, relaSection f eh i = some sh → ∀ j < sh.size / sh.entsize, (f.readRela sh i j).isSome = true

instance : DecidablePred (SectionRead f eh) := fun i =>
  decidable_of_iff (∀ sh ∈ relaSection f eh i, ∀ j < sh.size / sh.entsize,
    (f.readRela sh i j).isSome = true) Iff.rfl

theorem relocateSection_eq_bumpAll (hread : SectionRead f eh i) (delta : ℤ) (st : LoadSt) :
    relocateSection f eh delta i st = st.bumpAll delta (sectionFields f eh delta i) := by
  rw [relocateSection_eq, sectionFields]
  cases hsh : relaSection f eh i with
  | none => rfl
  | some sh =>
    have hfold := (steady_applyRela f delta sh i).loopWhile_eq_foldl
      (l := List.range (sh.size / sh.entsize))
      (List.all_eq_true.mpr fun j hj => hread sh hsh j (List.mem_range.mp hj)) st
    simp only [hfold, Option.toList_some, List.flatMap_cons, List.flatMap_nil, List.append_nil,
      LoadSt.bumpAll, List.foldl_filterMap, applyRela_eq]
    refine List.foldl_ext _ _ _ fun st j _ => ?_
    cases relaField f delta sh i j <;> rfl

/-- **All relocations** are applied, one after the other. -/
theorem relocate_eq (hdelta : delta ≠ 0) (hshoff : eh.shoff ≠ 0)
    (hread : ∀ i < eh.shnum, SectionRead f eh i) (st : LoadSt) :
    relocate f eh delta st = st.bumpAll delta (fileFields f eh delta) := by
  rw [relocate, if_pos ⟨hdelta, hshoff⟩, fileFields, LoadSt.bumpAll, List.foldl_flatMap]
  refine List.foldl_ext _ _ _ fun st i hi => ?_
  exact relocateSection_eq_bumpAll (hread i (List.mem_range.mp hi)) delta st

theorem stores_relocate (hread : delta ≠ 0 → eh.shoff ≠ 0 → ∀ i < eh.shnum, SectionRead f eh i)
    (st : LoadSt) : st.stores <+: (relocate f eh delta st).stores := by
  by_cases happly : delta ≠ 0 ∧ eh.shoff ≠ 0
  · rw [relocate_eq happly.1 happly.2 (hread happly.1 happly.2)]
    exact st.stores_bumpAll delta _
  · rw [relocate, if_neg happly]

/-! ## Complete programs -/

/-- A relocation section to be applied: the header can be read and, if it is one of relocations with
entries for some section, so can that section's header. -/
def SectionFound (f : File) (eh : Ehdr) (i : ℕ) : Prop :=
  ∃ sh, f.readShdr eh (.shdr i) i = some sh ∧
    (sh.type = shtRela ∧ sh.entsize ≠ 0 ∧ sh.info ≠ 0 ∧ sh.info < eh.shnum →
      (f.readShdr eh (.target i) sh.info).isSome = true)

instance : DecidablePred (SectionFound f eh) := fun i =>
  decidable_of_iff (∃ sh ∈ f.readShdr eh (.shdr i) i,
    sh.type = shtRela ∧ sh.entsize ≠ 0 ∧ sh.info ≠ 0 ∧ sh.info < eh.shnum →
      (f.readShdr eh (.target i) sh.info).isSome = true) Iff.rfl

/-- **Every entry of the tables can be read.** -/
def TablesRead (f : File) (loadBase : ℕ) : Prop :=
  ∀ eh, readEhdr f = .ok eh →
    (∀ i < eh.phnum, (f.readPhdr eh (.scan i) i).isSome = true ∧
      (f.readPhdr eh (.phdr i) i).isSome = true) ∧
    (loadDelta f eh loadBase ≠ 0 → eh.shoff ≠ 0 →
      ∀ i < eh.shnum, SectionFound f eh i ∧ SectionRead f eh i)

/-- **The program was loaded completely**: every program header was read, when the link base was looked
for and when the segments were loaded; of every segment all bytes were read to where it belongs; every
section header was read and that of the section it applies to, and every absolute relocation of a
loaded section was read and applied. -/
def Complete (f : File) (loadBase : ℕ) (st : LoadSt) : Prop :=
  ∀ eh, readEhdr f = .ok eh →
    (∀ i < eh.phnum, (f.readPhdr eh (.scan i) i).isSome = true ∧
      ∃ p, f.readPhdr eh (.phdr i) i = some p ∧ (p.type = ptLoad → 0 < p.filesz →
        ((f.bytes.drop p.offset).take p.filesz).length = p.filesz ∧
        (u32 (p.vaddr + loadDelta f eh loadBase), (f.bytes.drop p.offset).take p.filesz) ∈ st.stores)) ∧
    (loadDelta f eh loadBase ≠ 0 → eh.shoff ≠ 0 → ∀ i < eh.shnum, SectionFound f eh i ∧
      ∀ sh, relaSection f eh i = some sh → ∀ j < sh.size / sh.entsize, ∃ r, f.readRela sh i j = some r ∧
        ((absWidth r.type).isSome = true → (i, j) ∈ st.applied))

theorem Complete.tablesRead (h : Complete f loadBase st) : TablesRead f loadBase := by
  intro eh heh
  obtain ⟨hphdrs, hshdrs⟩ := h eh heh
  refine ⟨fun i hi => ⟨(hphdrs i hi).1, ?_⟩, fun hdelta hshoff i hi => ⟨(hshdrs hdelta hshoff i hi).1, ?_⟩⟩
  · obtain ⟨p, hp, -⟩ := (hphdrs i hi).2
    rw [hp]
    rfl
  · intro sh hsh j hj
    obtain ⟨r, hr, -⟩ := (hshdrs hdelta hshoff i hi).2 sh hsh j hj
    rw [hr]
    rfl

theorem File.freadAt_eq {site : Site} {offset len : ℕ} (h : (f.freadAt site offset len).2 = true) :
    (f.freadAt site offset len).1 = (f.bytes.drop offset).take len := by
  rw [File.freadAt] at h ⊢
  cases hfault : f.fault site with
  | none => rfl
  | some n => simp [hfault] at h

theorem mem_segmentStores (delta : ℤ) (hall : ∀ i < eh.phnum, segmentOk f eh i = true) (hi : i < eh.phnum) {p : Phdr}
    (hp : f.readPhdr eh (.phdr i) i = some p) (htype : p.type = ptLoad) (hsize : 0 < p.filesz) :
    ((f.bytes.drop p.offset).take p.filesz).length = p.filesz ∧
      (u32 (p.vaddr + delta), (f.bytes.drop p.offset).take p.filesz) ∈ segmentStores f eh delta i := by
  have hsegment : segment f eh i = some p := by simp [segment, hp, Option.filter, htype]
  have hok := hall i hi
  rw [segmentOk, hsegment, Option.all_some, Phdr.readable, Bool.or_eq_true, decide_eq_true_iff] at hok
  have hread := hok.resolve_left hsize.ne'
  rw [← File.freadAt_eq hread]
  refine ⟨File.length_freadAt hread, ?_⟩
  rw [segmentStores, hsegment]
  simp [Phdr.stores, hsize]

theorem mem_fileFields (hi : i < eh.shnum) (hsh : relaSection f eh i = some sh)
    (hj : j < sh.size / sh.entsize) {r : Rela} (hr : f.readRela sh i j = some r)
    (habs : (absWidth r.type).isSome = true) : (i, j) ∈ (fileFields f eh delta).map Prod.fst := by
  obtain ⟨w, hw⟩ := Option.isSome_iff_exists.mp habs
  refine List.mem_map.mpr ⟨((i, j), u32 (r.offset + delta), w), ?_, rfl⟩
  refine List.mem_flatMap.mpr ⟨i, List.mem_range.mpr hi, ?_⟩
  simp only [sectionFields, hsh, Option.toList_some, List.flatMap_cons, List.flatMap_nil, List.append_nil]
  exact List.mem_filterMap.mpr ⟨j, List.mem_range.mpr hj, by simp [relaField, hr, hw]⟩

theorem TablesRead.complete (h : TablesRead f loadBase) (hok : ¬ Refused f) (st : LoadSt) :
    Complete f loadBase (loadElf f loadBase st).2 := by
  intro eh heh
  obtain ⟨hphdrs, hshdrs⟩ := h eh heh
  rw [Refused, heh] at hok
  simp only [not_or, not_exists, not_and, Bool.not_eq_false] at hok
  obtain ⟨hbase, hall⟩ := hok
  rw [loadElf_of_header heh hbase, if_pos hall, loadSegments_eq hall, LoadSt.storeAll_eq]
  generalize loadDelta f eh loadBase = delta at hshdrs ⊢
  refine ⟨fun i hi => ⟨(hphdrs i hi).1, ?_⟩, fun hdelta hshoff i hi => ⟨(hshdrs hdelta hshoff i hi).1, ?_⟩⟩
  · obtain ⟨p, hp⟩ := Option.isSome_iff_exists.mp (hphdrs i hi).2
    refine ⟨p, hp, fun htype hsize => ?_⟩
    obtain ⟨hlen, hmem⟩ := mem_segmentStores delta hall hi hp htype hsize
    refine ⟨hlen, (stores_relocate (fun h₁ h₂ k hk => (hshdrs h₁ h₂ k hk).2) _).subset ?_⟩
    exact List.mem_append_right _ (List.mem_flatMap.mpr ⟨i, List.mem_range.mpr hi, hmem⟩)
  · intro sh hsh j hj
    obtain ⟨r, hr⟩ := Option.isSome_iff_exists.mp ((hshdrs hdelta hshoff i hi).2 sh hsh j hj)
    refine ⟨r, hr, fun habs => ?_⟩
    rw [relocate_eq hdelta hshoff fun i hi => (hshdrs hdelta hshoff i hi).2, LoadSt.applied_bumpAll]
    exact List.mem_append_right _ (mem_fileFields hi hsh hj hr habs)

/-- A pointer to be moved, whose relocation the file is cut short of: segment, section headers, and
nothing where the entry should be. -/
def truncatedFile : File := .ofBytes <|
  ehdrBytes 0 52 1 92 3 ++ phdrBytes 84 0 8 8 ++ leBytes 8 4 ++
    shdrBytes 0 0 0 0 0 0 ++ shdrBytes 1 2 84 8 0 0 ++ shdrBytes 4 0 212 12 1 12

end KlaussRuntime.Loader
