import KlaussRuntime.Machinery.Machine
import KlaussRuntime.Machinery.Memory

/-!
# Netboot/Receive — the receive state of the network loader (`netboot.c`)

A host sends a header of twelve bytes — magic, length, entry — and the image; `consume` takes the bytes
as they come, in pieces of any size, and stages the image.  There is one receive state for all
connections: `netboot_accept` resets it, and every `netboot_recv` feeds it.

What the state has received since the reset can be read off it (`Rx.received`): the header so far and
the bytes staged.  `consume` adds its bytes to that, up to the end of a transfer
(`Rx.Ok.takes_consumeAll`), however they are cut.
-/

namespace KlaussRuntime.Netboot

open Machinery

/-- `NETBOOT_MAGIC` -/
def magic : ℕ := 0x54454E4B

/-- `MAX_IMG_BYTES` -/
def maxImgBytes : ℕ := 0x01000000

/-- `rd_le32(p + k)` -/
def rdLe32 (p : List Byte) (k : ℕ) : ℕ := leNat ((p.drop k).take 4)

/-- `image_checksum`: the sum of the words of the staged image. -/
def imageChecksum (staging : Mem) (len : ℕ) : ℕ :=
  ((List.range (len / 4)).map fun k => leNat (staging.read (4 * k) 4)).sum % 2 ^ 32

inductive RxPhase where
  | header
  | image
  | done
deriving DecidableEq

/-- A reply of `send_ack`, with the connection it goes to and the header it is about. -/
structure Ack (C : Type) where
  pcb : C
  header : List Byte
  status : ℕ
  checksum : ℕ

/-- The receive globals, with all replies so far. -/
structure Rx (C : Type) where
  phase : RxPhase
  /-- the first `g_hdr_have` bytes of `g_hdr` -/
  hdr : List Byte
  imgLen : ℕ
  entryPc : ℕ
  offset : ℕ
  imageReady : Bool
  /-- the memory from `STAGING_BASE` on -/
  staging : Mem
  acks : List (Ack C)

variable {C : Type}

namespace Rx

def start (staging : Mem) : Rx C := ⟨.header, [], 0, 0, 0, false, staging, []⟩

/-- The reset in `netboot_accept`. -/
def reset (g : Rx C) : Rx C := { g with phase := .header, hdr := [], offset := 0, imgLen := 0 }

def sendAck (g : Rx C) (pcb : C) (status checksum : ℕ) : Rx C :=
  { g with acks := g.acks ++ [⟨pcb, g.hdr, status, checksum⟩] }

/-- What `consume` does with a complete header. -/
def readHeader (g : Rx C) (pcb : C) : Rx C :=
  if rdLe32 g.hdr 0 ≠ magic then { g.sendAck pcb 1 0 with phase := .done }
  else if rdLe32 g.hdr 4 = 0 ∨ rdLe32 g.hdr 4 ≥ maxImgBytes then
    { g.sendAck pcb 2 0 with
      imgLen := rdLe32 g.hdr 4, entryPc := rdLe32 g.hdr 8, offset := 0, phase := .done }
  else { g with imgLen := rdLe32 g.hdr 4, entryPc := rdLe32 g.hdr 8, offset := 0, phase := .image }

/-- A round of `consume` in `RX_HEADER`: the state and the bytes left. -/
def headerRound (g : Rx C) (pcb : C) (src : List Byte) : Rx C × List Byte :=
  let take := min src.length (12 - g.hdr.length)
  let g := { g with hdr := g.hdr ++ src.take take }
  (if g.hdr.length = 12 then g.readHeader pcb else g, src.drop take)

/-- What `consume` does with a complete image. -/
def finish (g : Rx C) (pcb : C) : Rx C :=
  { g.sendAck pcb 0 (imageChecksum g.staging g.imgLen) with phase := .done, imageReady := true }

/-- A round of `consume` in `RX_IMAGE`. -/
def imageRound (g : Rx C) (pcb : C) (src : List Byte) : Rx C × List Byte :=
  let take := min src.length (g.imgLen - g.offset)
  let g := { g with staging := g.staging.write g.offset (src.take take), offset := g.offset + take }
  (if g.offset = g.imgLen then g.finish pcb else g, src.drop take)

/-- The loop of `consume`; each round takes a byte, so their number bounds the rounds. -/
def consumeLoop : ℕ → Rx C → C → List Byte → Rx C
  | 0, g, _, _ => g
  | fuel + 1, g, pcb, src =>
    if src = [] then g
    else
      match g.phase with
      | .header => consumeLoop fuel (g.headerRound pcb src).1 pcb (g.headerRound pcb src).2
      | .image => consumeLoop fuel (g.imageRound pcb src).1 pcb (g.imageRound pcb src).2
      | .done => g

def consume (g : Rx C) (pcb : C) (src : List Byte) : Rx C := consumeLoop src.length g pcb src

/-- The loop of `netboot_recv` over a chain of buffers. -/
def consumeAll (g : Rx C) (pcb : C) (p : List (List Byte)) : Rx C :=
  p.foldl (fun g q => g.consume pcb q) g

/-! ## What the state says -/

/-- The bytes received since the last reset. -/
def received (g : Rx C) : List Byte := g.hdr ++ g.staging.read 0 g.offset

/-- The header is complete, was accepted, and is where length and entry are from. -/
structure HasHeader (g : Rx C) : Prop where
  length : g.hdr.length = 12
  magic : rdLe32 g.hdr 0 = magic
  imgLen : g.imgLen = rdLe32 g.hdr 4
  entryPc : g.entryPc = rdLe32 g.hdr 8
  pos : 0 < g.imgLen

/-- Status 0 is for headers with a length. -/
def AcksOk (acks : List (Ack C)) : Prop := ∀ a ∈ acks, a.status = 0 → 0 < rdLe32 a.header 4

/-- What holds of the state in every run. -/
structure Ok (g : Rx C) : Prop where
  header : g.phase = .header → g.hdr.length < 12 ∧ g.imgLen = 0 ∧ g.offset = 0
  image : g.phase = .image → g.HasHeader ∧ g.offset < g.imgLen
  acks : AcksOk g.acks

/-- The image is staged, and its header has been acknowledged. -/
structure Complete (g : Rx C) : Prop where
  phase : g.phase = .done
  header : g.HasHeader
  offset : g.offset = g.imgLen
  acked : ∃ a ∈ g.acks, a.header = g.hdr ∧ a.status = 0

/-- An image that is said to be ready is complete. -/
def Sound (g : Rx C) : Prop := g.imageReady = true → g.Complete

/-- **Bytes are received**: the state has them, and keeps what holds of it. -/
structure Advances (g g' : Rx C) (bytes : List Byte) : Prop where
  received : g'.received = g.received ++ bytes
  ok : g'.Ok
  sound : g.Sound → g'.Sound

variable {g g' g'' : Rx C} {pcb : C} {src bytes bytes' : List Byte}

theorem Ok.refl_advances (h : g.Ok) : Advances g g [] := ⟨(List.append_nil _).symm, h, id⟩

theorem Advances.trans (h : Advances g g' bytes) (h' : Advances g' g'' bytes') :
    Advances g g'' (bytes ++ bytes') :=
  ⟨by rw [h'.received, h.received, List.append_assoc], h'.ok, h'.sound ∘ h.sound⟩

theorem Ok.start (staging : Mem) : (start staging : Rx C).Ok :=
  ⟨fun _ => ⟨Nat.succ_pos 11, rfl, rfl⟩, nofun, nofun⟩

theorem Ok.reset (h : g.Ok) : g.reset.Ok := ⟨fun _ => ⟨Nat.succ_pos 11, rfl, rfl⟩, nofun, h.acks⟩

theorem Sound.of_ne_done (h : g.Sound) (hphase : g.phase ≠ .done) (hready : g'.imageReady = g.imageReady) :
    g'.Sound := fun hset => absurd (h (hready ▸ hset)).phase hphase

/-! ## One round -/

theorem AcksOk.snoc {acks : List (Ack C)} (h : AcksOk acks) {a : Ack C}
    (ha : a.status = 0 → 0 < rdLe32 a.header 4) : AcksOk (acks ++ [a]) := by
  intro b hb
  rcases List.mem_append.mp hb with hold | hnew
  · exact h b hold
  · rwa [List.mem_singleton.mp hnew]

/-- **A complete header** is refused, or its image awaited. -/
theorem readHeader_spec (hacks : AcksOk g.acks) (hlen : g.hdr.length = 12) (hoff : g.offset = 0)
    (pcb : C) : (g.readHeader pcb).Ok ∧ (g.readHeader pcb).received = g.hdr ∧
      (g.readHeader pcb).imageReady = g.imageReady := by
  have hnone (m : Mem) : g.hdr ++ m.read 0 0 = g.hdr := List.append_nil _
  rw [readHeader]
  split_ifs with hmagic hbad
  · exact ⟨⟨nofun, nofun, hacks.snoc nofun⟩, (congrArg _ (congrArg _ hoff)).trans (hnone _), rfl⟩
  · exact ⟨⟨nofun, nofun, hacks.snoc nofun⟩, hnone _, rfl⟩
  · have hpos : 0 < rdLe32 g.hdr 4 := Nat.pos_of_ne_zero (not_or.mp hbad).1
    exact ⟨⟨nofun, fun _ => ⟨⟨hlen, not_not.mp hmagic, rfl, rfl, hpos⟩, hpos⟩, hacks⟩, hnone _, rfl⟩

/-- **A round of the header** takes what the header still lacks. -/
theorem Ok.advances_headerRound (h : g.Ok) (hphase : g.phase = .header) (pcb : C) (src : List Byte) :
    Advances g (g.headerRound pcb src).1 (src.take (min src.length (12 - g.hdr.length))) := by
  obtain ⟨hlen, himg, hoff⟩ := h.header hphase
  have hne : g.phase ≠ .done := by rw [hphase]; nofun
  have hold : g.received = g.hdr := by rw [received, hoff]; exact List.append_nil _
  rw [headerRound]
  generalize hhdr : g.hdr ++ src.take (min src.length (12 - g.hdr.length)) = hdr
  have hle : hdr.length ≤ 12 := by
    rw [← hhdr, List.length_append, List.length_take]
    omega
  by_cases hfull : hdr.length = 12
  · obtain ⟨hok, hreceived, hready⟩ :=
      readHeader_spec (g := { g with hdr := hdr }) h.acks hfull hoff pcb
    simp only [if_pos hfull]
    exact ⟨by rw [hreceived, hold, hhdr], hok, fun hs => hs.of_ne_done hne hready⟩
  · simp only [if_neg hfull]
    refine ⟨?_, ⟨fun _ => ⟨hle.lt_of_ne hfull, himg, hoff⟩, fun himage => ?_, h.acks⟩,
      fun hs => hs.of_ne_done hne rfl⟩
    · rw [hold, hhdr]
      exact (congrArg _ (congrArg _ hoff)).trans (List.append_nil _)
    · exact absurd (hphase.symm.trans himage) (by decide)

/-- **A complete image** is acknowledged and ready. -/
theorem HasHeader.finish (hheader : g.HasHeader) (hacks : AcksOk g.acks) (hfull : g.offset = g.imgLen)
    (pcb : C) : (g.finish pcb).Ok ∧ (g.finish pcb).Complete :=
  have hheader' : (g.finish pcb).HasHeader :=
    ⟨hheader.length, hheader.magic, hheader.imgLen, hheader.entryPc, hheader.pos⟩
  ⟨⟨nofun, nofun, hacks.snoc fun _ => hheader.imgLen ▸ hheader.pos⟩, rfl, hheader', hfull,
    _, List.mem_append_right _ (List.mem_singleton_self _), rfl, rfl⟩

/-- **A round of the image** stages what the image still lacks. -/
theorem Ok.advances_imageRound (h : g.Ok) (hphase : g.phase = .image) (pcb : C) (src : List Byte) :
    Advances g (g.imageRound pcb src).1 (src.take (min src.length (g.imgLen - g.offset))) := by
  obtain ⟨hheader, hoff⟩ := h.image hphase
  have hne : g.phase ≠ .done := by rw [hphase]; nofun
  rw [imageRound]
  generalize htake : min src.length (g.imgLen - g.offset) = take
  have hlength : (src.take take).length = take := by
    rw [List.length_take]
    omega
  -- what is written stands behind what was staged
  have hstaged : g.hdr ++ (g.staging.write g.offset (src.take take)).read 0 (g.offset + take)
      = g.received ++ src.take take := by
    have hback := g.staging.read_write_self g.offset (src.take take)
    rw [hlength] at hback
    rw [Mem.read_add, g.staging.read_write_of_disjoint (.inl (by omega)), Nat.zero_add, hback,
      received, List.append_assoc]
  have hheader' : HasHeader { g with
      staging := g.staging.write g.offset (src.take take), offset := g.offset + take } :=
    ⟨hheader.length, hheader.magic, hheader.imgLen, hheader.entryPc, hheader.pos⟩
  by_cases hfull : g.offset + take = g.imgLen
  · obtain ⟨hok, hcomplete⟩ := hheader'.finish h.acks hfull pcb
    simp only [if_pos hfull]
    exact ⟨hstaged, hok, fun _ _ => hcomplete⟩
  · simp only [if_neg hfull]
    refine ⟨hstaged, ⟨fun hhead => ?_, fun _ => ⟨hheader', ?_⟩, h.acks⟩,
      fun hs => hs.of_ne_done hne rfl⟩
    · exact absurd (hphase.symm.trans hhead) (by decide)
    · exact lt_of_le_of_ne (by simp only; omega) hfull

/-! ## All rounds -/

theorem consumeLoop_done (h : g.phase = .done) (fuel : ℕ) (pcb : C) (src : List Byte) :
    consumeLoop fuel g pcb src = g := by
  cases fuel with
  | zero => rfl
  | succ fuel =>
    rw [consumeLoop, h]
    split_ifs <;> rfl

theorem consume_done (h : g.phase = .done) (pcb : C) (src : List Byte) : g.consume pcb src = g :=
  consumeLoop_done h _ pcb src

/-- `g'` has received a front part of `src` on top of `g`, and all of it unless the transfer ended. -/
def Takes (g g' : Rx C) (src : List Byte) : Prop :=
  ∃ bytes, bytes <+: src ∧ Advances g g' bytes ∧ (g'.phase ≠ .done → bytes = src)

theorem Ok.takes_nil (h : g.Ok) : Takes g g [] := ⟨[], List.prefix_rfl, h.refl_advances, fun _ => rfl⟩

theorem Advances.takes {k : ℕ} (h : Advances g g' (src.take k)) (h' : Takes g' g'' (src.drop k)) :
    Takes g g'' src := by
  obtain ⟨bytes, hpre, hadv, hall⟩ := h'
  refine ⟨src.take k ++ bytes, ?_, h.trans hadv, fun hphase => ?_⟩
  · conv_rhs => rw [← List.take_append_drop k src]
    exact (List.prefix_append_right_inj _).mpr hpre
  · rw [hall hphase, List.take_append_drop]

theorem Ok.takes_consumeLoop {fuel : ℕ} (h : g.Ok) (pcb : C) (hfuel : src.length ≤ fuel) :
    Takes g (consumeLoop fuel g pcb src) src := by
  induction fuel generalizing g src with
  | zero =>
    obtain rfl : src = [] := List.length_eq_zero_iff.mp (by omega)
    exact h.takes_nil
  | succ fuel ih =>
    rw [consumeLoop]
    split_ifs with hnil
    · rw [hnil]
      exact h.takes_nil
    · have hpos : 0 < src.length := List.length_pos_iff.mpr hnil
      split
      · next hphase =>
        have hadv := h.advances_headerRound hphase pcb src
        have hlen := (h.header hphase).1
        refine hadv.takes (ih hadv.ok ?_)
        rw [headerRound, List.length_drop]
        omega
      · next hphase =>
        have hadv := h.advances_imageRound hphase pcb src
        have hlen := (h.image hphase).2
        refine hadv.takes (ih hadv.ok ?_)
        rw [imageRound, List.length_drop]
        omega
      · next hphase =>
        exact ⟨[], List.nil_prefix, h.refl_advances, fun hne => absurd hphase hne⟩

theorem consumeAll_done (h : g.phase = .done) (pcb : C) (p : List (List Byte)) :
    g.consumeAll pcb p = g := by
  induction p with
  | nil => rfl
  | cons q p ih => rw [consumeAll, List.foldl_cons, consume_done h]; exact ih

/-- **The bytes of a chain are taken**, all of them unless the transfer ends. -/
theorem Ok.takes_consumeAll (h : g.Ok) (pcb : C) (p : List (List Byte)) :
    Takes g (g.consumeAll pcb p) p.flatten := by
  induction p generalizing g with
  | nil => exact h.takes_nil
  | cons q p ih =>
    obtain ⟨bytes, hpre, hadv, hall⟩ : Takes g (g.consume pcb q) q := h.takes_consumeLoop pcb le_rfl
    rw [List.flatten_cons]
    change Takes g ((g.consume pcb q).consumeAll pcb p) _
    by_cases hdone : (g.consume pcb q).phase = .done
    · rw [consumeAll_done hdone]
      exact ⟨bytes, hpre.trans (List.prefix_append q _), hadv, fun hne => absurd hdone hne⟩
    · obtain rfl := hall hdone
      obtain ⟨rest, hpre', hadv', hall'⟩ := ih hadv.ok
      exact ⟨bytes ++ rest, (List.prefix_append_right_inj bytes).mpr hpre', hadv.trans hadv',
        fun hne => by rw [hall' hne]⟩

end Rx

end KlaussRuntime.Netboot
