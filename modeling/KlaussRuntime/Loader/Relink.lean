import KlaussRuntime.Loader.Complete
import Mathlib.Data.List.Pairwise

/-!
# Loader/Relink — loading as linking again

What the linker makes of a program at some base is the abstract model: segments with their contents, a
value for every absolute field, and displacements in the PC-relative ones (`Image.linkAt`).  A symbol
of the program moves with the base; an absolute symbol does not, nor does an undefined weak one, which
is zero.

`load_elf` does not look at symbols.  It adds the distance to an absolute field as often as the file
lists it, in 64 bits after the distance has been cut to 32, and it leaves PC-relative fields alone.
That is linking again exactly when each field comes out right under that arithmetic
(`loadElfSaying_relinks_iff`); it does not when a field is for a symbol that does not move
(`weakFile_not_relinked`).
-/

namespace KlaussRuntime.Loader

open Machinery

/-! ## What the linker makes of a program -/

inductive Symbol where
  /-- defined in the program, at this address when linked -/
  | moves (addr : ℤ)
  /-- absolute; zero if undefined and weak -/
  | fixed (value : ℤ)

/-- How far a symbol goes with a program that is moved by `d`. -/
def Symbol.shift : Symbol → ℤ → ℤ
  | .moves _, d => d
  | .fixed _, _ => 0

/-- The address of a symbol in a program that is moved by `d`. -/
def Symbol.addr (s : Symbol) (d : ℤ) : ℤ :=
  s.shift d + match s with
    | .moves addr => addr
    | .fixed value => value

/-- An absolute field, at its address when linked: S + A. -/
structure AbsField where
  place : ℕ
  width : ℕ
  symbol : Symbol
  addend : ℤ

def AbsField.bytes (fld : AbsField) (d : ℤ) : List Byte :=
  intBytes fld.width (fld.symbol.addr d + fld.addend)

/-- A PC-relative field: S + A - P. -/
structure PcField where
  place : ℕ
  symbol : Symbol
  addend : ℤ

def PcField.displacement (fld : PcField) (d : ℤ) : ℤ :=
  fld.symbol.addr d + fld.addend - (fld.place + d)

/-- A segment, at its address when linked: contents, and zeros behind them. -/
structure Segment where
  addr : ℕ
  content : List Byte
  bss : ℕ
deriving DecidableEq

structure Image where
  base : ℕ
  segments : List Segment
  abs : List AbsField
  pc : List PcField

namespace Image

variable (img : Image) (loadBase : ℕ)

/-- Where an address comes to lie. -/
def move (a : ℕ) : ℕ := a - img.base + loadBase

/-- How far the program is moved. -/
def shift : ℤ := loadBase - img.base

def segmentStores (s : Segment) : List Store :=
  [(img.move loadBase s.addr, s.content),
    (img.move loadBase s.addr + s.content.length, List.replicate s.bss 0)]

/-- The program in memory, with its fields as they were linked. -/
def placeAt (m : Mem) : Mem := m.storeAll (img.segments.flatMap (img.segmentStores loadBase))

/-- **The program the linker would have produced at that base**, in memory. -/
def linkAt (m : Mem) : Mem :=
  (img.placeAt loadBase m).storeAll
    (img.abs.map fun fld => (img.move loadBase fld.place, fld.bytes (img.shift loadBase)))

/-- The program fits the address space at that base. -/
def Fits : Prop :=
  ∀ s ∈ img.segments, img.move loadBase s.addr < 2 ^ 32 ∧
    img.move loadBase s.addr + s.content.length + s.bss ≤ 2 ^ 32

/-- What the linker sees to: segments that do not meet, and each absolute field in the contents of one,
with its value, and not met by another. -/
structure WellLinked : Prop where
  base_le : ∀ s ∈ img.segments, img.base ≤ s.addr
  apart : img.segments.Pairwise fun s t =>
    Apart s.addr (s.content.length + s.bss) t.addr (t.content.length + t.bss)
  width : ∀ fld ∈ img.abs, 0 < fld.width
  field : ∀ fld ∈ img.abs, ∃ s ∈ img.segments, s.addr ≤ fld.place ∧
    fld.place + fld.width ≤ s.addr + s.content.length ∧
    (s.content.drop (fld.place - s.addr)).take fld.width = fld.bytes 0
  fields : img.abs.Pairwise fun a b => Apart a.place a.width b.place b.width

end Image

variable {img : Image} {loadBase : ℕ} {m : Mem}

theorem Symbol.addr_eq (s : Symbol) (d : ℤ) : s.addr d = s.addr 0 + s.shift d := by
  cases s <;> simp only [addr, shift] <;> ring

theorem AbsField.bytes_eq (fld : AbsField) (d : ℤ) :
    fld.bytes d = intBytes fld.width (fld.symbol.addr 0 + fld.addend + fld.symbol.shift d) := by
  rw [bytes, fld.symbol.addr_eq d]
  congr 1
  ring

@[simp] theorem AbsField.length_bytes (fld : AbsField) (d : ℤ) : (fld.bytes d).length = fld.width :=
  length_intBytes _ _

/-- **A PC-relative field still reaches its target** when the symbol moves along. -/
theorem PcField.displacement_eq_iff (fld : PcField) (d : ℤ) :
    fld.displacement d = fld.displacement 0 ↔ fld.symbol.shift d = d := by
  rw [displacement, displacement, fld.symbol.addr_eq d]
  constructor <;> intro h <;> linarith

/-! ## Fields in the placed program -/

namespace Image

theorem WellLinked.base_le_place (h : img.WellLinked) {fld : AbsField} (hfld : fld ∈ img.abs) :
    img.base ≤ fld.place := by
  obtain ⟨s, hs, hle, -⟩ := h.field fld hfld
  exact (h.base_le s hs).trans hle

theorem move_add {a k : ℕ} (h : img.base ≤ a) : img.move loadBase (a + k) = img.move loadBase a + k := by
  rw [move, move]
  omega

theorem apart_move {p n q k : ℕ} (hp : img.base ≤ p) (hq : img.base ≤ q) (h : Apart p n q k) :
    Apart (img.move loadBase p) n (img.move loadBase q) k := by
  rw [Apart, move, move] at *
  omega

theorem WellLinked.pairwise_stores (h : img.WellLinked) (loadBase : ℕ) :
    (img.segments.flatMap (img.segmentStores loadBase)).Pairwise
      fun s t => Apart s.1 s.2.length t.1 t.2.length := by
  refine List.pairwise_flatMap.mpr ⟨fun s hs => ?_, ?_⟩
  · refine List.pairwise_pair.mpr (.inl le_rfl)
  · refine h.apart.imp_of_mem fun {s t} hs ht hst x hx y hy => ?_
    have hmoved : Apart (img.move loadBase s.addr) _ (img.move loadBase t.addr) _ :=
      apart_move (h.base_le s hs) (h.base_le t ht) hst
    simp only [segmentStores, List.mem_cons, List.not_mem_nil, or_false] at hx hy
    rw [Apart] at hmoved ⊢
    rcases hx with rfl | rfl <;> rcases hy with rfl | rfl <;> simp only [List.length_replicate] <;> omega

/-- **A placed field** has the value it was linked with. -/
theorem WellLinked.read_placeAt (h : img.WellLinked) {fld : AbsField} (hfld : fld ∈ img.abs) (m : Mem) :
    (img.placeAt loadBase m).read (img.move loadBase fld.place) fld.width = fld.bytes 0 := by
  obtain ⟨s, hs, hle, hend, hbytes⟩ := h.field fld hfld
  obtain ⟨k, hk⟩ := Nat.exists_eq_add_of_le hle
  have hstore : (img.move loadBase s.addr, s.content) ∈ img.segments.flatMap (img.segmentStores loadBase) :=
    List.mem_flatMap.mpr ⟨s, hs, List.mem_cons_self⟩
  have hcontent := m.read_storeAll (h.pairwise_stores loadBase) hstore
  have hsub := (img.placeAt loadBase m).take_drop_read (img.move loadBase s.addr) s.content.length k
    fld.width
  rw [placeAt, hcontent, min_eq_left (by omega)] at hsub
  rw [hk, move_add (h.base_le s hs), placeAt, ← hsub, ← hbytes, hk, Nat.add_sub_cancel_left]

theorem WellLinked.apart_of_ne (h : img.WellLinked) {a b : AbsField} (ha : a ∈ img.abs) (hb : b ∈ img.abs)
    (hne : (a.place, a.width) ≠ (b.place, b.width)) : Apart a.place a.width b.place b.width := by
  have : Std.Symm fun a b : AbsField => Apart a.place a.width b.place b.width := ⟨fun _ _ => Apart.symm⟩
  exact h.fields.forall ha hb fun heq => hne (by rw [heq])

/-- **A field as the linker makes it** at that base. -/
theorem WellLinked.read_linkAt (h : img.WellLinked) {fld : AbsField} (hfld : fld ∈ img.abs) (m : Mem) :
    (img.linkAt loadBase m).read (img.move loadBase fld.place) fld.width
      = fld.bytes (img.shift loadBase) := by
  have hpairwise : (img.abs.map fun fld =>
      ((img.move loadBase fld.place, fld.bytes (img.shift loadBase)) : Store)).Pairwise
        fun s t => Apart s.1 s.2.length t.1 t.2.length := by
    refine List.pairwise_map.mpr (h.fields.imp_of_mem fun {a b} ha hb hab => ?_)
    rw [a.length_bytes, b.length_bytes]
    exact apart_move (h.base_le_place ha) (h.base_le_place hb) hab
  have hread := (img.placeAt loadBase m).read_storeAll hpairwise (List.mem_map_of_mem hfld)
  rwa [fld.length_bytes] at hread

/-- Bytes of no field are the same under any way to set the fields. -/
theorem linkAt_apply_of_not_mem {a : ℕ} (h : ∀ fld ∈ img.abs, a < img.move loadBase fld.place ∨
    img.move loadBase fld.place + fld.width ≤ a) (m : Mem) :
    img.linkAt loadBase m a = img.placeAt loadBase m a := by
  refine Mem.storeAll_apply_of_not_has _ fun s hs hhas => ?_
  obtain ⟨fld, hfld, rfl⟩ := List.mem_map.mp hs
  rw [Store.Has, fld.length_bytes] at hhas
  have hout := h fld hfld
  omega

/-- **Adding to the fields is linking again** exactly when each sum comes out right. -/
theorem WellLinked.bumpAll_eq_iff (h : img.WellLinked) (δ : ℤ) {l : List (ℕ × ℕ)}
    (hl : ∀ x ∈ l, ∃ fld ∈ img.abs, x = (fld.place, fld.width)) (m : Mem) :
    (img.placeAt loadBase m).bumpAll δ (l.map fun x => (img.move loadBase x.1, x.2))
        = img.linkAt loadBase m ↔
      ∀ fld ∈ img.abs, (l.count (fld.place, fld.width) : ℤ) * δ
        ≡ fld.symbol.shift (img.shift loadBase) [ZMOD 256 ^ fld.width] := by
  -- each field is added to as often as it is listed
  have hcount (fld : AbsField) (hfld : fld ∈ img.abs) :
      (l.map fun x => (img.move loadBase x.1, x.2)).count (img.move loadBase fld.place, fld.width)
        = l.count (fld.place, fld.width) := by
    rw [List.count, List.countP_map, List.count]
    refine List.countP_congr fun x hx => ?_
    obtain ⟨fld', hfld', rfl⟩ := hl x hx
    have hle := h.base_le_place hfld
    have hle' := h.base_le_place hfld'
    simp only [Function.comp_apply, beq_iff_eq, Prod.mk.injEq, move]
    omega
  have hread (fld : AbsField) (hfld : fld ∈ img.abs) :
      ((img.placeAt loadBase m).bumpAll δ (l.map fun x => (img.move loadBase x.1, x.2))).read
          (img.move loadBase fld.place) fld.width
        = intBytes fld.width (fld.symbol.addr 0 + fld.addend + l.count (fld.place, fld.width) * δ) := by
    rw [← hcount fld hfld]
    refine Mem.read_bumpAll _ δ (fun x hx => ?_) ?_
    · obtain ⟨y, hy, rfl⟩ := List.mem_map.mp hx
      obtain ⟨fld', hfld', rfl⟩ := hl y hy
      by_cases heq : (fld'.place, fld'.width) = (fld.place, fld.width)
      · obtain ⟨hplace, hwidth⟩ := Prod.mk.inj heq
        exact .inl (by rw [hplace, hwidth])
      · exact .inr (apart_move (h.base_le_place hfld') (h.base_le_place hfld)
          (h.apart_of_ne hfld' hfld heq))
    · rw [h.read_placeAt hfld, AbsField.bytes]
  constructor
  · intro heq fld hfld
    have hfield := hread fld hfld
    rw [heq, h.read_linkAt hfld, fld.bytes_eq, intBytes_eq_iff] at hfield
    exact (Int.ModEq.add_left_cancel' _ hfield).symm
  · intro hall
    funext a
    by_cases hin : ∃ fld ∈ img.abs, img.move loadBase fld.place ≤ a ∧
        a < img.move loadBase fld.place + fld.width
    · obtain ⟨fld, hfld, hle, hlt⟩ := hin
      obtain ⟨k, rfl⟩ := Nat.exists_eq_add_of_le hle
      have hsame := (hread fld hfld).trans
        ((intBytes_eq_iff.mpr ((hall fld hfld).add_left _)).trans
          ((fld.bytes_eq _).symm.trans (h.read_linkAt hfld m).symm))
      have hbyte := congrArg (fun bs => bs[k]?) hsame
      simp only [Mem.getElem?_read, if_pos (Nat.lt_of_add_lt_add_left hlt), Option.some.injEq] at hbyte
      exact hbyte
    · have hout : ∀ fld ∈ img.abs, a < img.move loadBase fld.place ∨
          img.move loadBase fld.place + fld.width ≤ a := fun fld hfld => by
        by_contra hnot
        rw [not_or, not_lt, not_le] at hnot
        exact hin ⟨fld, hfld, hnot⟩
      rw [linkAt_apply_of_not_mem hout]
      refine Mem.bumpAll_apply_of_not_mem _ δ fun x hx => ?_
      obtain ⟨y, hy, rfl⟩ := List.mem_map.mp hx
      obtain ⟨fld, hfld, rfl⟩ := hl y hy
      exact hout fld hfld

end Image

/-! ## Files of linked programs -/

/-- The segment of a program header, with what the file has of it. -/
def Phdr.toSegment (f : File) (p : Phdr) : Segment :=
  ⟨p.vaddr, (f.bytes.drop p.offset).take p.filesz, p.memsz - p.filesz⟩

/-- The fields the file lists, at their addresses when linked. -/
def relaPlaces (f : File) (eh : Ehdr) : List (ℕ × ℕ) :=
  if eh.shoff = 0 then [] else (fileFields f eh 0).map Prod.snd

/-- **The file is that of a linked program**, and all reads of it work: the segments are those of the
program, and the relocations listed are for its absolute fields. -/
structure Linked (f : File) (eh : Ehdr) (img : Image) : Prop where
  header : readEhdr f = .ok eh
  base : linkBase f eh = img.base
  load : img.base ≠ 0xFFFFFFFF
  scans : ∀ i < eh.phnum, (f.readPhdr eh (.scan i) i).isSome = true
  phdrs : ∀ i < eh.phnum, (f.readPhdr eh (.phdr i) i).isSome = true ∧ segmentOk f eh i = true
  sections : ∀ i < eh.shnum, SectionFound f eh i ∧ SectionRead f eh i
  segments : img.segments =
    (List.range eh.phnum).filterMap fun i => (segment f eh i).map (Phdr.toSegment f)
  wellLinked : img.WellLinked
  relas : ∀ x ∈ relaPlaces f eh, ∃ fld ∈ img.abs, x = (fld.place, fld.width)

variable {f : File} {eh : Ehdr} {delta : ℤ}

theorem u32_add_s32 {a : ℕ} {d : ℤ} (h₀ : 0 ≤ a + d) (h₁ : a + d < 2 ^ 32) :
    (u32 (a + s32 d) : ℤ) = a + d := by
  have hmod : (a + s32 d) % 2 ^ 32 = (a + d) % 2 ^ 32 := by
    have hs32 : s32 d % 2 ^ 32 = d % 2 ^ 32 := Int.bmod_emod
    rw [Int.add_emod, hs32, ← Int.add_emod]
  rw [u32, hmod, Int.emod_eq_of_lt h₀ h₁, Int.toNat_of_nonneg h₀]

/-- **An address comes to lie where the image is moved to.** -/
theorem Image.u32_move {a : ℕ} (hle : img.base ≤ a) (hlt : img.move loadBase a < 2 ^ 32) :
    u32 (a + s32 (img.shift loadBase)) = img.move loadBase a := by
  rw [move] at hlt ⊢
  have hsum : (a : ℤ) + img.shift loadBase = (a - img.base + loadBase : ℕ) := by
    rw [shift]
    omega
  have hmoved := u32_add_s32 (a := a) (d := img.shift loadBase) (by omega) (by omega)
  omega

/-- The fields of a moved program, as the loader computes them. -/
theorem map_fileFields (f : File) (eh : Ehdr) (delta : ℤ) :
    (fileFields f eh delta).map Prod.snd
      = ((fileFields f eh 0).map Prod.snd).map fun x => (u32 (x.1 + delta), x.2) := by
  have hfield (sh : Shdr) (i j : ℕ) : relaField f delta sh i j
      = (relaField f 0 sh i j).map fun x => (u32 (x.1 + delta), x.2) := by
    rw [relaField, relaField]
    cases f.readRela sh i j with
    | none => rfl
    | some r =>
      have hcut : u32 (r.offset + delta) = u32 (u32 (r.offset + 0) + delta) := by
        have hnonneg : 0 ≤ ((r.offset : ℤ) + 0) % 2 ^ 32 := Int.emod_nonneg _ (by norm_num)
        rw [u32, u32, u32, Int.toNat_of_nonneg hnonneg, Int.emod_add_emod, add_zero]
      rw [Option.bind_some, Option.bind_some, Option.map_map, hcut]
      rfl
  simp only [fileFields, sectionFields, List.map_flatMap, List.map_filterMap, hfield, Option.map_map]
  rfl

/-- The stores for a segment that was read put it where the image is moved to. -/
theorem storeAll_stores {p : Phdr} {i : ℕ} (hread : p.readable f i = true) (m : Mem)
    (hle : img.base ≤ p.vaddr) (hlt : img.move loadBase p.vaddr < 2 ^ 32) :
    m.storeAll (p.stores f (s32 (img.shift loadBase)) i)
      = m.storeAll (img.segmentStores loadBase (p.toSegment f)) := by
  rw [Phdr.stores, Image.segmentStores, Phdr.toSegment, Image.u32_move hle hlt, hread]
  by_cases hsize : 0 < p.filesz
  · have hok : (f.freadAt (.segment i) p.offset p.filesz).2 = true := by
      rw [Phdr.readable, Bool.or_eq_true, decide_eq_true_iff] at hread
      exact hread.resolve_left hsize.ne'
    have hlen := File.length_freadAt hok
    rw [File.freadAt_eq hok] at hlen ⊢
    by_cases hbss : p.memsz > p.filesz
    · simp only [if_pos hsize, hbss, and_self, if_true, hlen, List.cons_append, List.nil_append]
    · have hzero : p.memsz - p.filesz = 0 := by omega
      simp [hsize, hbss, hzero, Mem.storeAll]
  · have hnone : p.filesz = 0 := by omega
    by_cases hbss : p.memsz > 0
    · simp [hnone, hbss, Mem.storeAll]
    · have hzero : p.memsz = 0 := by omega
      simp [hnone, hzero, Mem.storeAll]

/-- **The segments are loaded** as the program is placed. -/
theorem Linked.mem_loadSegments (h : Linked f eh img) (hfits : img.Fits loadBase) (st : LoadSt) :
    (loadSegments f eh (s32 (img.shift loadBase)) st).mem = img.placeAt loadBase st.mem := by
  rw [loadSegments_eq fun i hi => (h.phdrs i hi).2, LoadSt.mem_storeAll, Image.placeAt, Mem.storeAll,
    Mem.storeAll, List.foldl_flatMap, List.foldl_flatMap, h.segments, List.foldl_filterMap]
  refine List.foldl_ext _ _ _ fun m i hi => ?_
  cases hsegment : segment f eh i with
  | none => simp [segmentStores, hsegment]
  | some p =>
    have hmem : p.toSegment f ∈ img.segments := by
      rw [h.segments]
      exact List.mem_filterMap.mpr ⟨i, hi, by rw [hsegment]; rfl⟩
    have hread := (h.phdrs i (List.mem_range.mp hi)).2
    rw [segmentOk, hsegment, Option.all_some] at hread
    simp only [segmentStores, hsegment, Option.toList_some, List.flatMap_cons, List.flatMap_nil,
      List.append_nil, Option.map_some]
    exact storeAll_stores hread m (h.wellLinked.base_le _ hmem) (hfits _ hmem).1

/-- The fields fit the address space with the segments they are in. -/
theorem Image.WellLinked.move_place_lt (h : img.WellLinked) (hfits : img.Fits loadBase) {fld : AbsField}
    (hfld : fld ∈ img.abs) : img.move loadBase fld.place < 2 ^ 32 := by
  obtain ⟨s, hs, hle, hend, -⟩ := h.field fld hfld
  have hwidth := h.width fld hfld
  have hbase := h.base_le s hs
  have hfit := (hfits s hs).2
  rw [move] at hfit ⊢
  omega

/-- **The relocations are applied** as often as the file lists them. -/
theorem Linked.mem_relocate (h : Linked f eh img) (hfits : img.Fits loadBase) (st : LoadSt) :
    (relocate f eh (s32 (img.shift loadBase)) st).mem = st.mem.bumpAll (s32 (img.shift loadBase))
      ((relaPlaces f eh).map fun x => (img.move loadBase x.1, x.2)) := by
  by_cases hdelta : s32 (img.shift loadBase) = 0
  · rw [relocate, hdelta, if_neg (by simp), Mem.bumpAll_zero]
  by_cases hshoff : eh.shoff = 0
  · rw [relocate, if_neg (by simp [hshoff]), relaPlaces, if_pos hshoff]
    rfl
  · rw [relocate_eq hdelta hshoff fun i hi => (h.sections i hi).2, LoadSt.mem_bumpAll, map_fileFields]
    have hplaces : relaPlaces f eh = (fileFields f eh 0).map Prod.snd := if_neg hshoff
    rw [← hplaces]
    congr 1
    refine List.map_congr_left fun x hx => ?_
    obtain ⟨fld, hfld, rfl⟩ := h.relas x hx
    rw [Image.u32_move (h.wellLinked.base_le_place hfld) (h.wellLinked.move_place_lt hfits hfld)]

/-- What it is for a load to be a link. -/
def Relinked (img : Image) (loadBase : ℕ) (mem mem' : Mem) : Prop :=
  mem' = img.linkAt loadBase mem ∧
    ∀ fld ∈ img.pc, fld.displacement (img.shift loadBase) = fld.displacement 0

/-- **Loading is relinking** exactly when every absolute field comes out right — listed `n` times, it is
shifted by `n` times the distance as cut to 32 bits — and every PC-relative one is for a symbol that
moves along. -/
theorem loadElfSaying_relinks_iff (text : LoadError → String) (h : Linked f eh img)
    (hfits : img.Fits loadBase) (mem : Mem) :
    (loadElfSaying f text loadBase (.start mem)).1 = .ok (u32 (eh.entry + s32 (img.shift loadBase))) ∧
    (Relinked img loadBase mem (loadElfSaying f text loadBase (.start mem)).2.mem ↔
      (∀ fld ∈ img.abs, ((relaPlaces f eh).count (fld.place, fld.width) : ℤ) * s32 (img.shift loadBase)
        ≡ fld.symbol.shift (img.shift loadBase) [ZMOD 256 ^ fld.width]) ∧
      ∀ fld ∈ img.pc, fld.symbol.shift (img.shift loadBase) = img.shift loadBase) := by
  have hdelta : loadDelta f eh loadBase = s32 (img.shift loadBase) := by
    rw [loadDelta, h.base, Image.shift]
  have hload := loadElf_of_header h.header (h.base ▸ h.load) loadBase (.start mem)
  rw [if_pos fun i hi => (h.phdrs i hi).2, hdelta] at hload
  have hmem : (loadElf f loadBase (.start mem)).2.mem = (img.placeAt loadBase mem).bumpAll
      (s32 (img.shift loadBase)) ((relaPlaces f eh).map fun x => (img.move loadBase x.1, x.2)) := by
    rw [hload, h.mem_relocate hfits, h.mem_loadSegments hfits]
    rfl
  refine ⟨loadElfSaying_ok (by rw [hload]) text, ?_⟩
  rw [Relinked, loadElfSaying, hmem, h.wellLinked.bumpAll_eq_iff _ h.relas]
  exact and_congr_right fun _ => forall₂_congr fun fld _ => fld.displacement_eq_iff _

/-! ## Two programs -/

/-- Sixteen bytes of data, linked at zero: a pointer to the address four, and a second pointer, each
with its relocation. -/
def pointerFile (pointer : ℕ) : File := .ofBytes <|
  ehdrBytes 0 52 1 100 3 ++ phdrBytes 84 0 16 16 ++ leBytes 8 4 ++ leBytes 8 pointer ++
    shdrBytes 0 0 0 0 0 0 ++ shdrBytes 1 2 84 16 0 0 ++ shdrBytes 4 0 220 24 1 12 ++
    leBytes 4 0 ++ leBytes 4 2 ++ leBytes 4 4 ++ leBytes 4 8 ++ leBytes 4 2 ++ leBytes 4 pointer

/-- The program of that file; the second pointer is for this symbol. -/
def pointerImage (pointer : ℕ) (symbol : Symbol) : Image where
  base := 0
  segments := [⟨0, leBytes 8 4 ++ leBytes 8 pointer, 0⟩]
  abs := [⟨0, 8, .moves 4, 0⟩, ⟨8, 8, symbol, 0⟩]
  pc := []

/-- The file is that of the program, whether the second pointer is for a symbol of the program or for
an undefined weak one. -/
theorem linked_pointerFile :
    ∀ x ∈ [(12, Symbol.moves 12), (0, Symbol.fixed 0)],
      Linked (pointerFile x.1) (.parse (ehdrBytes 0 52 1 100 3)) (pointerImage x.1 x.2) ∧
        (pointerImage x.1 x.2).Fits picLoadAddr := by
  simp only [List.forall_mem_cons, List.not_mem_nil, false_imp_iff, implies_true, and_true, Image.Fits]
  constructor <;>
    exact ⟨⟨by decide +kernel, by decide +kernel, by decide +kernel, by decide +kernel,
      by decide +kernel, by decide +kernel, by decide +kernel,
      ⟨by decide +kernel, by decide +kernel, by decide +kernel, by decide +kernel, by decide +kernel⟩,
      by decide +kernel⟩, by decide +kernel⟩

/-- **Two pointers into the program** are moved with it. -/
theorem pointerFile_relinked :
    Relinked (pointerImage 12 (.moves 12)) picLoadAddr (fun _ => 0)
      (Baremetal.loadElf (pointerFile 12) picLoadAddr (.start fun _ => 0)).2.mem := by
  obtain ⟨hlinked, hfits⟩ := linked_pointerFile (12, .moves 12) List.mem_cons_self
  exact (loadElfSaying_relinks_iff LoadError.loaderText hlinked hfits _).2.mpr
    ⟨by decide +kernel, nofun⟩

/-- **A pointer to an undefined weak symbol** is no longer zero. -/
theorem weakFile_not_relinked :
    Linked (pointerFile 0) (.parse (ehdrBytes 0 52 1 100 3)) (pointerImage 0 (.fixed 0)) ∧
    (pointerImage 0 (.fixed 0)).Fits picLoadAddr ∧
    [Baremetal.loadElf, PicLoader.loadElf].Forall fun load =>
      (load (pointerFile 0) picLoadAddr (.start fun _ => 0)).1 = .ok picLoadAddr ∧
      (load (pointerFile 0) picLoadAddr (.start fun _ => 0)).2.mem.read 0x04000008 8
        = leBytes 8 0x04000000 ∧
      ¬ Relinked (pointerImage 0 (.fixed 0)) picLoadAddr (fun _ => 0)
        (load (pointerFile 0) picLoadAddr (.start fun _ => 0)).2.mem := by
  obtain ⟨hlinked, hfits⟩ := linked_pointerFile (0, .fixed 0) (List.mem_cons_of_mem _ List.mem_cons_self)
  have hcore : (loadElf (pointerFile 0) picLoadAddr (.start fun _ => 0)).1 = .ok picLoadAddr := by
    decide +kernel
  have hok := loadElfSaying_ok hcore
  have hread : (loadElf (pointerFile 0) picLoadAddr (.start fun _ => 0)).2.mem.read 0x04000008 8
      = leBytes 8 0x04000000 := by decide +kernel
  have hnot : ¬ Relinked (pointerImage 0 (.fixed 0)) picLoadAddr (fun _ => 0)
      (loadElf (pointerFile 0) picLoadAddr (.start fun _ => 0)).2.mem := fun hrelinked => by
    rw [hrelinked.1] at hread
    exact absurd hread (by decide +kernel)
  exact ⟨hlinked, hfits, ⟨hok _, hread, hnot⟩, hok _, hread, hnot⟩

end KlaussRuntime.Loader
