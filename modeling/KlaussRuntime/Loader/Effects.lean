import KlaussRuntime.Loader.Elf

/-!
# Loader/Effects — what `load_elf` writes

Each round of the loops has its stores, read off the file (`segmentStores`, and one field for each
absolute relocation), and goes on or not whatever the state is.  So what `load_elf` writes is known
from the file: the segments up to the first that cannot be read, and then the fields of the
relocation sections.

There are no checks between those addresses and the stores.  All of them lie in the program area
exactly when the segments and fields the file describes do (`loadElfSaying_inArea_iff`).
-/

namespace KlaussRuntime.Loader

open Machinery

variable {f : File} {eh : Ehdr} {delta : ℤ} {st : LoadSt} {i j : ℕ} {sh : Shdr} {loadBase : ℕ}

/-! ## Stores -/

def LoadSt.storeAll (st : LoadSt) (l : List Store) : LoadSt := l.foldl (fun st s => st.store s.1 s.2) st

theorem LoadSt.storeAll_eq (st : LoadSt) (l : List Store) :
    st.storeAll l = { st with stores := st.stores ++ l } := by
  induction l generalizing st with
  | nil => rw [List.append_nil]; rfl
  | cons s l ih =>
    rw [storeAll, List.foldl_cons]
    refine (ih _).trans ?_
    rw [store, List.append_assoc]
    rfl

theorem LoadSt.mem_storeAll (st : LoadSt) (l : List Store) : (st.storeAll l).mem = st.mem.storeAll l := by
  rw [st.storeAll_eq, LoadSt.mem, Mem.storeAll_append]
  rfl

/-- The addresses written. -/
def LoadSt.Wrote (st : LoadSt) (a : ℕ) : Prop := ∃ s ∈ st.stores, Store.Has s a

/-- **What was not written is as it was.** -/
theorem LoadSt.mem_of_not_wrote {a : ℕ} (ha : ¬ st.Wrote a) : st.mem a = st.before a :=
  st.before.storeAll_apply_of_not_has fun s hs hhas => ha ⟨s, hs, hhas⟩

/-! ## The rounds -/

/-- Whether the bytes of a segment can all be read. -/
def Phdr.readable (f : File) (i : ℕ) (p : Phdr) : Bool :=
  p.filesz = 0 || (f.freadAt (.segment i) p.offset p.filesz).2

/-- The stores for a segment: what was read of it and, if that was all, the zeros behind it. -/
def Phdr.stores (f : File) (delta : ℤ) (i : ℕ) (p : Phdr) : List Store :=
  (if p.filesz > 0 then [(u32 (p.vaddr + delta), (f.freadAt (.segment i) p.offset p.filesz).1)] else [])
    ++ if p.readable f i ∧ p.memsz > p.filesz then
        [(u32 (p.vaddr + delta) + p.filesz, List.replicate (p.memsz - p.filesz) 0)]
      else []

theorem placeSegment_eq (f : File) (delta : ℤ) (i : ℕ) (p : Phdr) (st : LoadSt) :
    placeSegment f delta i p st = (st.storeAll (p.stores f delta i), p.readable f i) := by
  simp only [placeSegment, Phdr.stores, Phdr.readable]
  by_cases hsize : p.filesz > 0
  · by_cases hread : (f.freadAt (.segment i) p.offset p.filesz).2 = true
    · by_cases hbss : p.memsz > p.filesz <;> simp [hsize, hread, hbss, LoadSt.storeAll]
    · rw [Bool.not_eq_true] at hread
      simp [hsize, hsize.ne', hread, LoadSt.storeAll]
  · have hzero : p.filesz = 0 := Nat.eq_zero_of_not_pos hsize
    by_cases hbss : p.memsz > p.filesz
    · rw [hzero] at hbss
      simp [hzero, hbss, LoadSt.storeAll]
    · rw [hzero] at hbss
      simp [hzero, hbss, LoadSt.storeAll]

/-- The program header of this number, if it is one of a segment to load. -/
def segment (f : File) (eh : Ehdr) (i : ℕ) : Option Phdr :=
  (f.readPhdr eh (.phdr i) i).filter (·.type = ptLoad)

def segmentOk (f : File) (eh : Ehdr) (i : ℕ) : Bool := (segment f eh i).all (Phdr.readable f i)

def segmentStores (f : File) (eh : Ehdr) (delta : ℤ) (i : ℕ) : List Store :=
  (segment f eh i).toList.flatMap (Phdr.stores f delta i)

/-- **A round over the segments** makes its stores, and fails when the segment cannot be read. -/
theorem loadSegment_eq (f : File) (eh : Ehdr) (delta : ℤ) (i : ℕ) (st : LoadSt) :
    loadSegment f eh delta i st = (st.storeAll (segmentStores f eh delta i), segmentOk f eh i) := by
  simp only [loadSegment, segmentStores, segmentOk, segment]
  cases f.readPhdr eh (.phdr i) i with
  | none => rfl
  | some p =>
    by_cases htype : p.type = ptLoad
    · simp [htype, Option.filter, placeSegment_eq]
    · simp [htype, Option.filter, LoadSt.storeAll]

theorem steady_loadSegment (f : File) (eh : Ehdr) (delta : ℤ) :
    Steady (loadSegment f eh delta) (segmentOk f eh) := fun i st => by rw [loadSegment_eq]

/-- The relocation section of this number, if it is one whose entries are applied. -/
def relaSection (f : File) (eh : Ehdr) (i : ℕ) : Option Shdr :=
  match f.readShdr eh (.shdr i) i with
  | none => none
  | some sh =>
    if sh.type = shtRela ∧ sh.entsize ≠ 0 ∧ sh.info ≠ 0 ∧ sh.info < eh.shnum then
      match f.readShdr eh (.target i) sh.info with
      | none => none
      | some target => if target.flags &&& shfAlloc = 0 then none else some sh
    else none

theorem relocateSection_eq (f : File) (eh : Ehdr) (delta : ℤ) (i : ℕ) (st : LoadSt) :
    relocateSection f eh delta i st = match relaSection f eh i with
      | none => st
      | some sh => (loopWhile (applyRela f delta sh i) (List.range (sh.size / sh.entsize)) st).1 := by
  rw [relocateSection, relaSection]
  cases f.readShdr eh (.shdr i) i with
  | none => rfl
  | some sh =>
    by_cases hsh : sh.type = shtRela ∧ sh.entsize ≠ 0 ∧ sh.info ≠ 0 ∧ sh.info < eh.shnum
    · obtain ⟨htype, hsize, hinfo, hlt⟩ := hsh
      cases htarget : f.readShdr eh (.target i) sh.info with
      | none => simp [htype, hsize, hinfo, hlt, htarget]
      | some target =>
        by_cases halloc : target.flags &&& shfAlloc = 0 <;>
          simp [htype, hsize, hinfo, hlt, hlt.not_ge, htarget, halloc]
    · simp only [if_neg hsh]
      split_ifs with h₁ h₂ h₃
      · rfl
      · rfl
      · rfl
      · rw [not_or, ge_iff_le, not_le] at h₃
        exact absurd ⟨not_not.mp h₁, h₂, h₃⟩ hsh

/-- The field a relocation has the loaders add to: its address and width. -/
def relaField (f : File) (delta : ℤ) (sh : Shdr) (i j : ℕ) : Option (ℕ × ℕ) :=
  (f.readRela sh i j).bind fun r => (absWidth r.type).map fun w => (u32 (r.offset + delta), w)

theorem applyRela_eq (f : File) (delta : ℤ) (sh : Shdr) (i j : ℕ) (st : LoadSt) :
    applyRela f delta sh i j st = (match relaField f delta sh i j with
      | none => st
      | some fld => { st.bump fld.1 fld.2 delta with applied := st.applied ++ [(i, j)] },
      (f.readRela sh i j).isSome) := by
  simp only [applyRela, relaField]
  cases f.readRela sh i j with
  | none => rfl
  | some r => cases h : absWidth r.type <;> simp [h]

theorem steady_applyRela (f : File) (delta : ℤ) (sh : Shdr) (i : ℕ) :
    Steady (applyRela f delta sh i) fun j => (f.readRela sh i j).isSome :=
  fun j st => by rw [applyRela_eq]

/-! ## The result -/

/-- What has `load_elf` return an error: the header, no segment, or a segment that cannot be read. -/
def Refused (f : File) : Prop :=
  match readEhdr f with
  | .error _ => True
  | .ok eh => linkBase f eh = 0xFFFFFFFF ∨ ∃ i < eh.phnum, segmentOk f eh i = false

/-- The distance the image is moved by. -/
def loadDelta (f : File) (eh : Ehdr) (loadBase : ℕ) : ℤ := s32 (loadBase - linkBase f eh)

/-- The state after the segments. -/
def loadSegments (f : File) (eh : Ehdr) (delta : ℤ) (st : LoadSt) : LoadSt :=
  (loopWhile (loadSegment f eh delta) (List.range eh.phnum) st).1

/-- **`load_elf` with a good header**: segments, and then relocations if all of them were read. -/
theorem loadElf_of_header (heh : readEhdr f = .ok eh) (hbase : linkBase f eh ≠ 0xFFFFFFFF)
    (loadBase : ℕ) (st : LoadSt) :
    loadElf f loadBase st =
      if ∀ i < eh.phnum, segmentOk f eh i = true then
        (.ok (u32 (eh.entry + loadDelta f eh loadBase)), relocate f eh (loadDelta f eh loadBase)
          (loadSegments f eh (loadDelta f eh loadBase) st))
      else (.error .segmentRead, loadSegments f eh (loadDelta f eh loadBase) st) := by
  have hsnd := (steady_loadSegment f eh (loadDelta f eh loadBase)).loopWhile_snd
    (List.range eh.phnum) st
  simp only [loadElf, heh, if_neg hbase]
  change (if (loopWhile (loadSegment f eh (loadDelta f eh loadBase)) _ st).2 = true then _ else _) = _
  refine if_congr ?_ rfl rfl
  rw [hsnd, List.all_eq_true]
  simp only [List.mem_range]

theorem loadElfSaying_ok {entry : ℕ} (h : (loadElf f loadBase st).1 = .ok entry)
    (text : LoadError → String) : (loadElfSaying f text loadBase st).1 = .ok entry := by
  rw [loadElfSaying, h]
  rfl

theorem loadElf_isOk_iff (f : File) (loadBase : ℕ) (st : LoadSt) :
    (∃ entry, (loadElf f loadBase st).1 = .ok entry) ↔ ¬ Refused f := by
  rw [Refused]
  cases heh : readEhdr f with
  | error e => simp [loadElf, heh]
  | ok eh =>
    by_cases hbase : linkBase f eh = 0xFFFFFFFF
    · simp [loadElf, heh, hbase]
    · rw [loadElf_of_header heh hbase]
      by_cases hall : ∀ i < eh.phnum, segmentOk f eh i = true
      · rw [if_pos hall]
        simp only [hbase, false_or, not_exists, not_and, Bool.not_eq_false]
        exact ⟨fun _ => hall, fun _ => ⟨_, rfl⟩⟩
      · rw [if_neg hall]
        simp only [hbase, false_or, not_exists, not_and, Bool.not_eq_false]
        refine ⟨fun h => ?_, fun h => absurd h hall⟩
        obtain ⟨_, h⟩ := h
        cases h

/-! ## Properties that add up -/

/-- A property of the state to which each store adds a condition on where it is and how long. -/
structure AddsUp (Q : LoadSt → Prop) (R : ℕ → ℕ → Prop) : Prop where
  store : ∀ st p bs, Q (st.store p bs) ↔ Q st ∧ R p bs.length
  applied : ∀ st l, Q { st with applied := l } ↔ Q st

namespace AddsUp

variable {Q : LoadSt → Prop} {R : ℕ → ℕ → Prop} (h : AddsUp Q R)

include h

theorem loadSegments (f : File) (eh : Ehdr) (delta : ℤ) (st : LoadSt) :
    Q (loadSegments f eh delta st) ↔ Q st ∧ ∀ i < eh.phnum, (∀ k < i, segmentOk f eh k = true) →
      ∀ s ∈ segmentStores f eh delta i, R s.1 s.2.length := by
  refine (steady_loadSegment f eh delta).loopWhile_range_iff (fun i st => ?_) eh.phnum st
  rw [loadSegment_eq]
  exact foldl_iff (fun s st => h.store st s.1 s.2) _ st

theorem applyRela (f : File) (delta : ℤ) (sh : Shdr) (i j : ℕ) (st : LoadSt) :
    Q (applyRela f delta sh i j st).1 ↔
      Q st ∧ ∀ fld, relaField f delta sh i j = some fld → R fld.1 fld.2 := by
  rw [applyRela_eq]
  cases relaField f delta sh i j with
  | none => simp
  | some fld =>
    refine (h.applied (st.bump fld.1 fld.2 delta) _).trans ((h.store _ _ _).trans ?_)
    simp

theorem relocateSection (f : File) (eh : Ehdr) (delta : ℤ) (i : ℕ) (st : LoadSt) :
    Q (relocateSection f eh delta i st) ↔
      Q st ∧ ∀ sh, relaSection f eh i = some sh → ∀ j < sh.size / sh.entsize,
        (∀ k < j, (f.readRela sh i k).isSome = true) →
          ∀ fld, relaField f delta sh i j = some fld → R fld.1 fld.2 := by
  rw [relocateSection_eq]
  cases relaSection f eh i with
  | none => simp
  | some sh =>
    refine ((steady_applyRela f delta sh i).loopWhile_range_iff (h.applyRela f delta sh i) _ st).trans ?_
    simp

theorem relocate (f : File) (eh : Ehdr) (delta : ℤ) (st : LoadSt) :
    Q (relocate f eh delta st) ↔ Q st ∧ (delta ≠ 0 → eh.shoff ≠ 0 →
      ∀ i < eh.shnum, ∀ sh, relaSection f eh i = some sh → ∀ j < sh.size / sh.entsize,
        (∀ k < j, (f.readRela sh i k).isSome = true) →
          ∀ fld, relaField f delta sh i j = some fld → R fld.1 fld.2) := by
  rw [Loader.relocate]
  split_ifs with hdelta
  · refine (foldl_iff (fun i st => h.relocateSection f eh delta i st) _ st).trans ?_
    simp only [List.mem_range, hdelta.1, hdelta.2, ne_eq, not_false_eq_true, forall_const]
  · rw [not_and] at hdelta
    exact ⟨fun hq => ⟨hq, fun h₁ h₂ => absurd h₂ (hdelta h₁)⟩, And.left⟩

/-- **After `load_elf`**, the conditions are those of the segments up to the first that cannot be read
and, if all were, of the fields of the relocations. -/
theorem loadElf (f : File) (loadBase : ℕ) (st : LoadSt) :
    Q (loadElf f loadBase st).2 ↔ Q st ∧ ∀ eh, readEhdr f = .ok eh → linkBase f eh ≠ 0xFFFFFFFF →
      (∀ i < eh.phnum, (∀ k < i, segmentOk f eh k = true) →
        ∀ s ∈ segmentStores f eh (loadDelta f eh loadBase) i, R s.1 s.2.length) ∧
      ((∀ i < eh.phnum, segmentOk f eh i = true) → loadDelta f eh loadBase ≠ 0 → eh.shoff ≠ 0 →
        ∀ i < eh.shnum, ∀ sh, relaSection f eh i = some sh → ∀ j < sh.size / sh.entsize,
          (∀ k < j, (f.readRela sh i k).isSome = true) →
            ∀ fld, relaField f (loadDelta f eh loadBase) sh i j = some fld → R fld.1 fld.2) := by
  cases heh : readEhdr f with
  | error e => simp [Loader.loadElf, heh]
  | ok eh =>
    by_cases hbase : linkBase f eh = 0xFFFFFFFF
    · simp [Loader.loadElf, heh, hbase]
    · rw [loadElf_of_header heh hbase]
      simp only [Except.ok.injEq, forall_eq', ne_eq, hbase, not_false_eq_true, forall_const]
      by_cases hall : ∀ i < eh.phnum, segmentOk f eh i = true
      · rw [if_pos hall, h.relocate, h.loadSegments, and_assoc]
        exact and_congr_right fun _ => and_congr_right fun _ => ⟨fun hr _ => hr, fun hr => hr hall⟩
      · rw [if_neg hall, h.loadSegments]
        simp only [hall, false_implies, and_true]

end AddsUp

theorem loadElf_before (f : File) (loadBase : ℕ) (st : LoadSt) :
    (loadElf f loadBase st).2.before = st.before := by
  have hadds : AddsUp (fun st' => st'.before = st.before) fun _ _ => True :=
    ⟨fun _ _ _ => (iff_of_eq (and_true _)).symm, fun _ _ => Iff.rfl⟩
  exact (hadds.loadElf f loadBase st).mpr ⟨rfl, by simp⟩

/-! ## The program area -/

/-- The region reserved for loaded programs. -/
def InArea (a : ℕ) : Prop := 0x04000000 ≤ a ∧ a < 0x08000000

/-- How much of memory a segment takes: what the header says, or what was read of it when not all
could be. -/
def Phdr.extent (f : File) (i : ℕ) (p : Phdr) : ℕ :=
  if p.readable f i then max p.filesz p.memsz else (f.freadAt (.segment i) p.offset p.filesz).1.length

theorem File.length_freadAt {site : Site} {offset len : ℕ} (h : (f.freadAt site offset len).2 = true) :
    (f.freadAt site offset len).1.length = len := by
  rw [File.freadAt] at h ⊢
  cases hfault : f.fault site with
  | none =>
    simp only [hfault, decide_eq_true_iff] at h ⊢
    exact h
  | some n => simp [hfault] at h

/-- **A segment is written from its address on**, as far as it extends. -/
theorem Phdr.forall_stores_iff (f : File) (delta : ℤ) (i : ℕ) (p : Phdr) (P : ℕ → Prop) :
    (∀ s ∈ p.stores f delta i, ∀ a, s.1 ≤ a → a < s.1 + s.2.length → P a) ↔
      ∀ a, u32 (p.vaddr + delta) ≤ a → a < u32 (p.vaddr + delta) + p.extent f i → P a := by
  generalize hdest : u32 (p.vaddr + delta) = dest
  have hread : p.readable f i = true → 0 < p.filesz →
      (f.freadAt (.segment i) p.offset p.filesz).1.length = p.filesz := fun hok hsize => by
    rw [readable, Bool.or_eq_true, decide_eq_true_iff] at hok
    exact File.length_freadAt (hok.resolve_left hsize.ne')
  have hnone : p.readable f i = false → 0 < p.filesz := fun hok => by
    rw [readable, Bool.or_eq_false_iff, decide_eq_false_iff_not] at hok
    exact Nat.pos_of_ne_zero hok.1
  simp only [stores, extent, hdest]
  generalize (f.freadAt (.segment i) p.offset p.filesz).1 = data at hread ⊢
  cases hok : p.readable f i with
  | true =>
    have hlen := hread hok
    simp only [true_and, if_true]
    constructor
    · intro hall a hle hlt
      by_cases hfile : a < dest + p.filesz
      · have hsize : 0 < p.filesz := by omega
        refine hall (dest, data) ?_ a hle (by rw [hlen hsize]; exact hfile)
        rw [if_pos hsize]
        exact List.mem_append_left _ (List.mem_singleton_self _)
      · have hbss : p.memsz > p.filesz := by omega
        refine hall (dest + p.filesz, List.replicate (p.memsz - p.filesz) 0) ?_ a (by simp only; omega) ?_
        · rw [if_pos hbss]
          exact List.mem_append_right _ (List.mem_singleton_self _)
        · simp only [List.length_replicate]
          omega
    · intro hall s hs a hle hlt
      rcases List.mem_append.mp hs with hfile | hbss
      · split_ifs at hfile with hsize
        · obtain rfl := List.mem_singleton.mp hfile
          simp only [hlen hsize] at hle hlt
          exact hall a hle (by omega)
        · cases hfile
      · split_ifs at hbss with hmore
        · obtain rfl := List.mem_singleton.mp hbss
          simp only [List.length_replicate] at hle hlt
          exact hall a (by omega) (by omega)
        · cases hbss
  | false =>
    have hsize := hnone hok
    simp [hsize]

/-- **The file keeps to the program area**: so do the segments up to the first that cannot be read and,
if all can, the fields its relocations have the loader add to. -/
def Confined (f : File) (loadBase : ℕ) : Prop :=
  ∀ eh, readEhdr f = .ok eh → linkBase f eh ≠ 0xFFFFFFFF →
    (∀ i < eh.phnum, (∀ k < i, segmentOk f eh k = true) → ∀ p, segment f eh i = some p →
      ∀ a, u32 (p.vaddr + loadDelta f eh loadBase) ≤ a →
        a < u32 (p.vaddr + loadDelta f eh loadBase) + p.extent f i → InArea a) ∧
    ((∀ i < eh.phnum, segmentOk f eh i = true) → loadDelta f eh loadBase ≠ 0 → eh.shoff ≠ 0 →
      ∀ i < eh.shnum, ∀ sh, relaSection f eh i = some sh → ∀ j < sh.size / sh.entsize,
        (∀ k < j, (f.readRela sh i k).isSome = true) →
          ∀ fld, relaField f (loadDelta f eh loadBase) sh i j = some fld →
            ∀ a, fld.1 ≤ a → a < fld.1 + fld.2 → InArea a)

/-- **What is written lies in the program area exactly when the file keeps to it.** -/
theorem loadElf_wrote_iff (f : File) (loadBase : ℕ) (mem : Mem) :
    (∀ a, (loadElf f loadBase (.start mem)).2.Wrote a → InArea a) ↔ Confined f loadBase := by
  have hadds : AddsUp (fun st => ∀ a, st.Wrote a → InArea a)
      fun p n => ∀ a, p ≤ a → a < p + n → InArea a := by
    refine ⟨fun st p bs => ?_, fun _ _ => Iff.rfl⟩
    simp only [LoadSt.Wrote, LoadSt.store, List.mem_append, List.mem_singleton, or_and_right,
      exists_or, exists_eq_left, or_imp, forall_and, Store.Has, and_imp]
  have hstart : ∀ a, (LoadSt.start mem).Wrote a → InArea a := by simp [LoadSt.Wrote, LoadSt.start]
  refine (hadds.loadElf f loadBase (.start mem)).trans ((and_iff_right hstart).trans ?_)
  refine forall_congr' fun eh => forall_congr' fun _ => forall_congr' fun _ => and_congr_left fun _ => ?_
  refine forall_congr' fun i => forall_congr' fun _ => forall_congr' fun _ => ?_
  rw [segmentStores]
  cases segment f eh i with
  | none => simp
  | some p =>
    simp only [Option.toList_some, List.flatMap_cons, List.flatMap_nil, List.append_nil,
      Option.some.injEq, forall_eq']
    exact p.forall_stores_iff f _ i InArea

/-- The bytes of an ELF header for KlaussCPU, C ABI 3. -/
def ehdrBytes (entry phoff phnum shoff shnum : ℕ) : List Byte :=
  [0x7f, 0x45, 0x4c, 0x46] ++ List.replicate 12 0 ++ leBytes 2 2 ++ leBytes 2 emKlausscpu ++ leBytes 4 1 ++
    leBytes 4 entry ++ leBytes 4 phoff ++ leBytes 4 shoff ++ leBytes 4 abiVersion ++ leBytes 2 52 ++
    leBytes 2 32 ++ leBytes 2 phnum ++ leBytes 2 40 ++ leBytes 2 shnum ++ leBytes 2 0

/-- The bytes of a program header of a segment to load. -/
def phdrBytes (offset vaddr filesz memsz : ℕ) : List Byte :=
  leBytes 4 ptLoad ++ leBytes 4 offset ++ leBytes 4 vaddr ++ leBytes 4 vaddr ++ leBytes 4 filesz ++
    leBytes 4 memsz ++ leBytes 4 7 ++ leBytes 4 8

/-- The bytes of a section header. -/
def shdrBytes (type flags offset size info entsize : ℕ) : List Byte :=
  leBytes 4 0 ++ leBytes 4 type ++ leBytes 4 flags ++ leBytes 4 0 ++ leBytes 4 offset ++ leBytes 4 size ++
    leBytes 4 0 ++ leBytes 4 info ++ leBytes 4 8 ++ leBytes 4 entsize

/-- A file all of whose reads work as far as it goes. -/
def File.ofBytes (bytes : List Byte) : File := ⟨bytes, fun _ => none⟩

/-- Two segments of four bytes, the second linked just below the end of the address space. -/
def wrappingFile : File := .ofBytes <|
  ehdrBytes 0 52 2 0 0 ++ phdrBytes 116 0 4 4 ++ phdrBytes 116 0xFC000020 4 4 ++ [1, 2, 3, 4]

end KlaussRuntime.Loader
