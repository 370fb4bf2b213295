import KlaussRuntime.Netboot.Receive

/-!
# Netboot/Segments — how a stream is cut does not matter

`consume` takes its bytes in bulk, as many as the header or the image still lacks.  It does what `feed`, which
takes one byte at a time, does with them in turn (`Ready.consume_eq`); so the calls of `netboot_recv` on a
connection, with chains of buffers of any number and size, do what one call with the whole stream does, and
`Delivered` says what that is.
-/

namespace KlaussRuntime.Netboot

open Machinery

variable {C : Type}

namespace Rx

/-- One byte received. -/
def feed (pcb : C) (g : Rx C) (b : Byte) : Rx C :=
  match g.phase with
  | .header =>
    let g := { g with hdr := g.hdr ++ [b] }
    if g.hdr.length = 12 then g.readHeader pcb else g
  | .image =>
    let g := { g with staging := g.staging.write g.offset [b], offset := g.offset + 1 }
    if g.offset = g.imgLen then g.finish pcb else g
  | .done => g

def feeds (g : Rx C) (pcb : C) (bytes : List Byte) : Rx C := bytes.foldl (feed pcb) g

/-- The header or the image that is awaited is not complete. -/
structure Ready (g : Rx C) : Prop where
  header : g.phase = .header → g.hdr.length < 12
  image : g.phase = .image → g.offset < g.imgLen

variable {g : Rx C} {pcb : C} {bytes src : List Byte}

theorem Ready.reset (g : Rx C) : g.reset.Ready := ⟨fun _ => Nat.succ_pos 11, nofun⟩

theorem Ready.readHeader (g : Rx C) (pcb : C) : (g.readHeader pcb).Ready := by
  rw [Rx.readHeader]
  split_ifs with hmagic hbad
  · exact ⟨by rintro ⟨⟩, by rintro ⟨⟩⟩
  · exact ⟨by rintro ⟨⟩, by rintro ⟨⟩⟩
  · exact ⟨by rintro ⟨⟩, fun _ => Nat.pos_of_ne_zero (not_or.mp hbad).1⟩

/-! ## A round, byte by byte -/

theorem feed_header (h : g.phase = .header) (b : Byte) : feed pcb g b =
    if g.hdr.length + 1 = 12 then { g with hdr := g.hdr ++ [b] }.readHeader pcb
    else { g with hdr := g.hdr ++ [b] } := by
  cases g
  cases h
  simp only [feed, List.length_append, List.length_singleton]

theorem feed_image (h : g.phase = .image) (b : Byte) : feed pcb g b =
    if g.offset + 1 = g.imgLen then
      { g with staging := g.staging.write g.offset [b], offset := g.offset + 1 }.finish pcb
    else { g with staging := g.staging.write g.offset [b], offset := g.offset + 1 } := by
  cases g
  cases h
  rfl

theorem feed_done (h : g.phase = .done) (b : Byte) : feed pcb g b = g := by rw [feed, h]

theorem feeds_done (h : g.phase = .done) (pcb : C) (bytes : List Byte) : g.feeds pcb bytes = g := by
  induction bytes with
  | nil => rfl
  | cons b bytes ih => rwa [feeds, List.foldl_cons, feed_done h]

/-- **Bytes of the header.** -/
theorem feeds_header (h : g.phase = .header) (hlt : g.hdr.length < 12)
    (hle : g.hdr.length + bytes.length ≤ 12) : g.feeds pcb bytes =
      if g.hdr.length + bytes.length = 12 then { g with hdr := g.hdr ++ bytes }.readHeader pcb
      else { g with hdr := g.hdr ++ bytes } := by
  induction bytes generalizing g with
  | nil => rw [if_neg (by simpa using hlt.ne), List.append_nil]; rfl
  | cons b bytes ih =>
    rw [List.length_cons] at hle ⊢
    change (feed pcb g b).feeds pcb bytes = _
    rw [feed_header h]
    by_cases hfull : g.hdr.length + 1 = 12
    · obtain rfl : bytes = [] := List.length_eq_zero_iff.mp (by omega)
      rw [if_pos hfull, if_pos (by simpa using hfull)]
      rfl
    · rw [if_neg hfull, ih (g := { g with hdr := g.hdr ++ [b] }) h]
      · simp only [List.length_append, List.length_singleton, List.append_assoc, List.singleton_append,
          Nat.add_assoc, Nat.add_comm 1]
      · simp only [List.length_append, List.length_singleton]
        omega
      · simp only [List.length_append, List.length_singleton]
        omega

/-- **Bytes of the image.** -/
theorem feeds_image (h : g.phase = .image) (hlt : g.offset < g.imgLen)
    (hle : g.offset + bytes.length ≤ g.imgLen) : g.feeds pcb bytes =
      if g.offset + bytes.length = g.imgLen then
        { g with staging := g.staging.write g.offset bytes, offset := g.offset + bytes.length }.finish pcb
      else { g with staging := g.staging.write g.offset bytes, offset := g.offset + bytes.length } := by
  induction bytes generalizing g with
  | nil => rw [if_neg (by simpa using hlt.ne), Mem.write_nil]; rfl
  | cons b bytes ih =>
    rw [List.length_cons] at hle ⊢
    change (feed pcb g b).feeds pcb bytes = _
    have hwrite : (g.staging.write g.offset [b]).write (g.offset + 1) bytes =
        g.staging.write g.offset (b :: bytes) := (g.staging.write_append g.offset [b] bytes).symm
    rw [feed_image h]
    by_cases hfull : g.offset + 1 = g.imgLen
    · obtain rfl : bytes = [] := List.length_eq_zero_iff.mp (by omega)
      rw [if_pos hfull, if_pos (by simpa using hfull)]
      rfl
    · rw [if_neg hfull, ih (g := { g with
        staging := g.staging.write g.offset [b], offset := g.offset + 1 }) h]
      · simp only [hwrite, Nat.add_assoc, Nat.add_comm 1]
      · exact lt_of_le_of_ne hlt hfull
      · simp only
        omega

theorem Ready.feed (h : g.Ready) (pcb : C) (b : Byte) : (feed pcb g b).Ready := by
  cases hphase : g.phase with
  | header =>
    rw [feed_header hphase]
    have hlt := h.header hphase
    split_ifs with hfull
    · exact Ready.readHeader _ pcb
    · refine ⟨fun _ => ?_, fun himage => by cases hphase.symm.trans himage⟩
      simp only [List.length_append, List.length_singleton]
      omega
  | image =>
    rw [feed_image hphase]
    have hlt := h.image hphase
    split_ifs with hfull
    · exact ⟨nofun, nofun⟩
    · exact ⟨fun hheader => (by cases hphase.symm.trans hheader), fun _ => lt_of_le_of_ne hlt hfull⟩
  | done =>
    rw [feed_done hphase]
    exact h

theorem Ready.feeds (h : g.Ready) (pcb : C) (bytes : List Byte) : (g.feeds pcb bytes).Ready := by
  induction bytes generalizing g with
  | nil => exact h
  | cons b bytes ih => exact ih (h.feed pcb b)

theorem feeds_append (g : Rx C) (pcb : C) (as bs : List Byte) :
    g.feeds pcb (as ++ bs) = (g.feeds pcb as).feeds pcb bs := List.foldl_append

theorem Ready.headerRound_eq (h : g.Ready) (hphase : g.phase = .header) (pcb : C) (src : List Byte) :
    (g.headerRound pcb src).1 = g.feeds pcb (src.take (min src.length (12 - g.hdr.length))) := by
  have hlt := h.header hphase
  have hlen : (src.take (min src.length (12 - g.hdr.length))).length =
      min src.length (12 - g.hdr.length) := by
    rw [List.length_take]
    omega
  rw [feeds_header hphase hlt (by rw [hlen]; omega), headerRound]
  simp only [List.length_append]

theorem Ready.imageRound_eq (h : g.Ready) (hphase : g.phase = .image) (pcb : C) (src : List Byte) :
    (g.imageRound pcb src).1 = g.feeds pcb (src.take (min src.length (g.imgLen - g.offset))) := by
  have hlt := h.image hphase
  have hlen : (src.take (min src.length (g.imgLen - g.offset))).length =
      min src.length (g.imgLen - g.offset) := by
    rw [List.length_take]
    omega
  rw [feeds_image hphase hlt (by rw [hlen]; omega), imageRound, hlen]

/-! ## The loop -/

theorem Ready.consumeLoop_eq {fuel : ℕ} (h : g.Ready) (pcb : C) (hfuel : src.length ≤ fuel) :
    consumeLoop fuel g pcb src = g.feeds pcb src := by
  induction fuel generalizing g src with
  | zero =>
    obtain rfl : src = [] := List.length_eq_zero_iff.mp (by omega)
    rfl
  | succ fuel ih =>
    rw [consumeLoop]
    split_ifs with hnil
    · rw [hnil]
      rfl
    · have hpos : 0 < src.length := List.length_pos_iff.mpr hnil
      -- a round takes a part of `src`, and the rest goes to the rounds after it
      have hround : ∀ {g' : Rx C} {k : ℕ}, 0 < k → g' = g.feeds pcb (src.take k) →
          consumeLoop fuel g' pcb (src.drop k) = g.feeds pcb src := fun {g' k} hk hg' => by
        rw [hg', ih (h.feeds pcb _) (by rw [List.length_drop]; omega), ← feeds_append,
          List.take_append_drop]
      split
      · next hphase =>
        have hlt := h.header hphase
        exact hround (by omega) (h.headerRound_eq hphase pcb src)
      · next hphase =>
        have hlt := h.image hphase
        exact hround (by omega) (h.imageRound_eq hphase pcb src)
      · next hphase => exact (feeds_done hphase pcb src).symm

/-- **Bytes in bulk are bytes in turn.** -/
theorem Ready.consume_eq (h : g.Ready) (pcb : C) (src : List Byte) :
    g.consume pcb src = g.feeds pcb src := h.consumeLoop_eq pcb le_rfl

theorem Ready.consumeAll_eq (h : g.Ready) (pcb : C) (p : List (List Byte)) :
    g.consumeAll pcb p = g.feeds pcb p.flatten := by
  induction p generalizing g with
  | nil => rfl
  | cons q p ih =>
    change (g.consume pcb q).consumeAll pcb p = _
    rw [h.consume_eq, ih (h.feeds pcb q), List.flatten_cons, feeds_append]

/-- The calls of `netboot_recv` on a connection. -/
def recvs (g : Rx C) (pcb : C) (chains : List (List (List Byte))) : Rx C :=
  chains.foldl (fun g p => g.consumeAll pcb p) g

theorem Ready.recvs_eq (h : g.Ready) (pcb : C) (chains : List (List (List Byte))) :
    g.recvs pcb chains = g.feeds pcb chains.flatten.flatten := by
  induction chains generalizing g with
  | nil => rfl
  | cons p chains ih =>
    change (g.consumeAll pcb p).recvs pcb chains = _
    rw [h.consumeAll_eq, ih (h.feeds pcb _), List.flatten_cons, List.flatten_append, feeds_append]

end Rx

/-! ## What a stream does -/

/-- The stream has a header that is accepted. -/
structure Accepted (stream : List Byte) : Prop where
  length : 12 ≤ stream.length
  magic : rdLe32 stream 0 = magic
  pos : 0 < rdLe32 stream 4
  lt : rdLe32 stream 4 < maxImgBytes

theorem rdLe32_take (stream : List Byte) {k : ℕ} (hk : k + 4 ≤ 12) :
    rdLe32 (stream.take 12) k = rdLe32 stream k := by
  rw [rdLe32, rdLe32, List.drop_take, List.take_take, Nat.min_eq_left (by omega)]

namespace Rx

variable {g : Rx C} {pcb : C} {stream : List Byte}

theorem feeds_short (g : Rx C) (pcb : C) (h : stream.length < 12) :
    g.reset.feeds pcb stream = { g.reset with hdr := stream } := by
  have hzero : g.reset.hdr.length + stream.length = stream.length := Nat.zero_add _
  have hready := (Ready.reset g).header rfl
  rw [feeds_header (g := g.reset) rfl hready (by omega), if_neg (by omega)]
  rfl

theorem feeds_long (g : Rx C) (pcb : C) (h : 12 ≤ stream.length) : g.reset.feeds pcb stream =
    ({ g.reset with hdr := stream.take 12 }.readHeader pcb).feeds pcb (stream.drop 12) := by
  have hlen : g.reset.hdr.length + (stream.take 12).length = 12 := by
    rw [List.length_take, Nat.min_eq_left h]
    rfl
  have hready := (Ready.reset g).header rfl
  conv_lhs => rw [← List.take_append_drop 12 stream, feeds_append,
    feeds_header (g := g.reset) rfl hready hlen.le, if_pos hlen]
  rfl

/-- The state once the header is accepted. -/
def awaiting (g : Rx C) (stream : List Byte) : Rx C :=
  { g.reset with
    hdr := stream.take 12
    imgLen := rdLe32 stream 4
    entryPc := rdLe32 stream 8
    phase := .image }

theorem readHeader_accepted (g : Rx C) (pcb : C) (h : Accepted stream) :
    { g.reset with hdr := stream.take 12 }.readHeader pcb = g.awaiting stream := by
  have hlen := rdLe32_take stream (k := 4) (by decide)
  rw [readHeader, if_neg (by simp [rdLe32_take, h.magic]), if_neg]
  · simp only [hlen, rdLe32_take stream (k := 8) (by decide)]
    rfl
  · simp only [hlen, not_or]
    exact ⟨h.pos.ne', not_le.mpr h.lt⟩

theorem readHeader_refused (g : Rx C) (pcb : C) (hlen : 12 ≤ stream.length) (h : ¬ Accepted stream) :
    ({ g.reset with hdr := stream.take 12 }.readHeader pcb).phase = .done ∧
      ({ g.reset with hdr := stream.take 12 }.readHeader pcb).staging = g.staging := by
  rw [readHeader]
  split_ifs with hmagic hbad
  · exact ⟨rfl, rfl⟩
  · exact ⟨rfl, rfl⟩
  · simp only [rdLe32_take, Nat.reduceAdd, Nat.reduceLeDiff, not_not, not_or, not_le] at hmagic hbad
    exact absurd ⟨hlen, hmagic, Nat.pos_of_ne_zero hbad.1, hbad.2⟩ h

/-- **The whole image**, and what comes after it. -/
theorem feeds_complete (g : Rx C) (pcb : C) (h : Accepted stream)
    (hall : 12 + rdLe32 stream 4 ≤ stream.length) : g.reset.feeds pcb stream =
      { g.awaiting stream with
        staging := g.staging.write 0 ((stream.drop 12).take (rdLe32 stream 4))
        offset := rdLe32 stream 4 }.finish pcb := by
  have hlen : ((stream.drop 12).take (rdLe32 stream 4)).length = rdLe32 stream 4 := by
    rw [List.length_take, List.length_drop]
    omega
  have hfull : (g.awaiting stream).offset + ((stream.drop 12).take (rdLe32 stream 4)).length =
      (g.awaiting stream).imgLen := (Nat.zero_add _).trans hlen
  rw [feeds_long g pcb h.length, readHeader_accepted g pcb h,
    ← List.take_append_drop (rdLe32 stream 4) (stream.drop 12), feeds_append,
    feeds_image rfl h.pos hfull.le, if_pos hfull, feeds_done rfl, List.take_append_drop, hlen]
  exact congrArg (fun n => finish { g.awaiting stream with
    staging := g.staging.write 0 ((stream.drop 12).take (rdLe32 stream 4)), offset := n } pcb)
    (Nat.zero_add _)

/-- **Part of the image.** -/
theorem feeds_incomplete (g : Rx C) (pcb : C) (h : Accepted stream)
    (hpart : stream.length < 12 + rdLe32 stream 4) :
    (g.reset.feeds pcb stream).staging = g.staging.write 0 (stream.drop 12) := by
  have hlen : (g.awaiting stream).offset + (stream.drop 12).length < (g.awaiting stream).imgLen := by
    change 0 + _ < rdLe32 stream 4
    have := h.length
    rw [List.length_drop]
    omega
  rw [feeds_long g pcb h.length, readHeader_accepted g pcb h, feeds_image rfl h.pos hlen.le,
    if_neg hlen.ne]
  rfl

/-- **Nothing is staged behind the image.** -/
theorem staging_feeds (g : Rx C) (pcb : C) {a : ℕ}
    (ha : (g.reset.feeds pcb stream).staging a ≠ g.staging a) :
    Accepted stream ∧ a < rdLe32 stream 4 := by
  rcases Nat.lt_or_ge stream.length 12 with hshort | hlong
  · rw [feeds_short g pcb hshort] at ha
    exact absurd rfl ha
  by_cases h : Accepted stream
  · refine ⟨h, not_le.mp fun hle => ha ?_⟩
    rcases Nat.lt_or_ge stream.length (12 + rdLe32 stream 4) with hpart | hall
    · rw [feeds_incomplete g pcb h hpart]
      refine Mem.write_apply_of_not_mem _ (.inr ?_)
      rw [List.length_drop]
      omega
    · rw [feeds_complete g pcb h hall]
      change g.staging.write 0 _ a = g.staging a
      refine Mem.write_apply_of_not_mem _ (.inr ?_)
      rw [List.length_take]
      omega
  · obtain ⟨hdone, hstaging⟩ := readHeader_refused g pcb hlong h
    rw [feeds_long g pcb hlong, feeds_done hdone, hstaging] at ha
    exact absurd rfl ha

end Rx

/-- What a connection's stream has done to the state it found. -/
structure Delivered (g₀ g : Rx C) (pcb : C) (stream : List Byte) : Prop where
  /-- what the stream does when it comes at once -/
  whole : g = g₀.reset.consume pcb stream
  /-- a whole image is staged and acknowledged once, and what follows is ignored -/
  complete : Accepted stream → 12 + rdLe32 stream 4 ≤ stream.length →
    g.phase = .done ∧ g.staging.read 0 (rdLe32 stream 4) = (stream.drop 12).take (rdLe32 stream 4) ∧
      g.acks = g₀.acks ++
        [⟨pcb, stream.take 12, 0, imageChecksum g.staging (rdLe32 stream 4)⟩] ∧
      ∀ later, g.consume pcb later = g
  untouched : ∀ a, g.staging a ≠ g₀.staging a → Accepted stream ∧ a < rdLe32 stream 4

/-- **Reception does not depend on how a stream is cut into buffers and chains.** -/
theorem recvs_delivered (g₀ : Rx C) (pcb : C) (chains : List (List (List Byte))) :
    Delivered g₀ (g₀.reset.recvs pcb chains) pcb chains.flatten.flatten := by
  have hready := Rx.Ready.reset g₀
  rw [hready.recvs_eq]
  refine ⟨(hready.consume_eq pcb _).symm, fun h hall => ?_, fun a ha => Rx.staging_feeds g₀ pcb ha⟩
  rw [Rx.feeds_complete g₀ pcb h hall]
  refine ⟨rfl, ?_, rfl, fun later => Rx.consume_done rfl pcb later⟩
  have hlen : ((chains.flatten.flatten.drop 12).take (rdLe32 chains.flatten.flatten 4)).length =
      rdLe32 chains.flatten.flatten 4 := by
    rw [List.length_take, List.length_drop]
    omega
  have hread := g₀.staging.read_write_self 0
    ((chains.flatten.flatten.drop 12).take (rdLe32 chains.flatten.flatten 4))
  rwa [hlen] at hread

end KlaussRuntime.Netboot
