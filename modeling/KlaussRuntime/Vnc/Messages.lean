import KlaussRuntime.Machinery.Streams
import KlaussRuntime.Vnc.Session

/-!
# Vnc/Messages — the client's messages on the wire

`serve_client` reads a type byte and then the fixed part of that type's message.  Two types go on: a
list of encodings is read one by one, and the text of a `ClientCutText` is thrown away in chunks of
64 bytes (`recvDiscard`).  `readMessage` is that part of the loop body.

`ClientMsg.wire` lays a message out as RFC 6143 does, with any bytes where the server does not look.
`takes_readMessage` — reading takes exactly the bytes of a well-formed message and returns its fields —
goes through the stream of a whole connection without a byte read twice or left out.
-/

namespace KlaussRuntime.Vnc

open Machinery

/-! ## Reading -/

def rd16 (p : List Byte) (k : ℕ) : BitVec 16 :=
  (p.getD k 0).setWidth 16 <<< 8 ||| (p.getD (k + 1) 0).setWidth 16

def rd32 (p : List Byte) (k : ℕ) : BitVec 32 :=
  (p.getD k 0).setWidth 32 <<< 24 ||| (p.getD (k + 1) 0).setWidth 32 <<< 16 |||
    (p.getD (k + 2) 0).setWidth 32 <<< 8 ||| (p.getD (k + 3) 0).setWidth 32

def parsePixfmt (p : List Byte) : Pixfmt where
  bpp := p.getD 0 0
  depth := p.getD 1 0
  bigEndian := p.getD 2 0
  trueColour := p.getD 3 0
  redMax := rd16 p 4
  greenMax := rd16 p 6
  blueMax := rd16 p 8
  redShift := p.getD 10 0
  greenShift := p.getD 11 0
  blueShift := p.getD 12 0

/-- A message, with the fields the server takes from it. -/
inductive ClientMsg where
  | setPixelFormat (f : Pixfmt)
  | setEncodings (encodings : List (BitVec 32))
  | fbUpdateReq (incr : Byte) (x y w h : BitVec 16)
  | keyEvent (down : Byte) (key : BitVec 32)
  | pointerEvent (mask : Byte) (x y : BitVec 16)
  | clientCutText (len : BitVec 32)
deriving DecidableEq

/-- The loop of `recv_discard`; each round takes a byte, so `n` bounds the rounds. -/
def recvDiscardLoop : ℕ → ℕ → Prog Inlet Unit
  | 0, _ => pure ()
  | fuel + 1, n =>
    if n = 0 then pure ()
    else do
      let _ ← recvAll (min n 64)
      recvDiscardLoop fuel (n - min n 64)

def recvDiscard (n : ℕ) : Prog Inlet Unit := recvDiscardLoop n n

/-- The loop over the encodings of a `SetEncodings`. -/
def recvEncodings (n : ℕ) : Prog Inlet (List (BitVec 32)) :=
  loop (fun _ encodings => do
    let b ← recvAll 4
    return encodings ++ [rd32 b 0]) n []

/-- The `switch` over the type of a message, up to what its case reads; no result where `serve_client`
returns. -/
def readBody : ℕ → Prog Inlet ClientMsg
  | 0 => do
    let b ← recvAll 19
    return .setPixelFormat (parsePixfmt (b.drop 3))
  | 2 => do
    let b ← recvAll 3
    let encodings ← recvEncodings (rd16 b 1).toNat
    return .setEncodings encodings
  | 3 => do
    let b ← recvAll 9
    return .fbUpdateReq (b.getD 0 0) (rd16 b 1) (rd16 b 3) (rd16 b 5) (rd16 b 7)
  | 4 => do
    let b ← recvAll 7
    return .keyEvent (b.getD 0 0) (rd32 b 3)
  | 5 => do
    let b ← recvAll 5
    return .pointerEvent (b.getD 0 0) (rd16 b 1) (rd16 b 3)
  | 6 => do
    let b ← recvAll 7
    recvDiscard (rd32 b 3).toNat
    return .clientCutText (rd32 b 3)
  -- an unknown type
  | _ => failure

/-- Read one message. -/
def readMessage : Prog Inlet ClientMsg := do
  let type ← recvAll 1
  readBody (type.getD 0 0).toNat

/-- The three reads of the handshake: version, security type, shared flag. -/
def readHandshake : Prog Inlet Unit := do
  let _ ← recvAll 12
  let b ← recvAll 1
  if b.getD 0 0 ≠ 1 then failure
  else do
    let _ ← recvAll 1
    return ()

/-- What the session makes of a message. -/
def ClientMsg.toMsg : ClientMsg → Msg
  | .setPixelFormat f => .setPixelFormat f
  | .setEncodings encodings => .setEncodings encodings
  | .fbUpdateReq incr x y w h => .fbUpdateReq (incr ≠ 0) x y w h
  | .keyEvent _ _ => .keyEvent
  | .pointerEvent _ _ _ => .pointerEvent
  | .clientCutText _ => .clientCutText

/-- A call of one of the two input callbacks. -/
inductive Callback where
  | key (down : Bool) (key : BitVec 32)
  | ptr (x y : BitVec 16) (mask : Byte)
deriving DecidableEq

/-- The callbacks a message leads to. -/
def ClientMsg.callbacks : ClientMsg → List Callback
  | .keyEvent down key => [.key (down ≠ 0) key]
  | .pointerEvent mask x y => [.ptr x y mask]
  | _ => []

/-! ## The wire -/

def Pixfmt.wire (f : Pixfmt) : List Byte :=
  [f.bpp, f.depth, f.bigEndian, f.trueColour] ++ be16 f.redMax ++ be16 f.greenMax ++ be16 f.blueMax
    ++ [f.redShift, f.greenShift, f.blueShift]

/-- The bytes of a message; `skip` gives those the server does not look at, padding and text. -/
def ClientMsg.wire (skip : ℕ → Byte) : ClientMsg → List Byte
  | .setPixelFormat f => [0] ++ ([skip 0, skip 1, skip 2] ++ f.wire ++ [skip 3, skip 4, skip 5])
  | .setEncodings encodings =>
    [2] ++ ((skip 0 :: be16 (BitVec.ofNat 16 encodings.length)) ++ encodings.flatMap be32)
  | .fbUpdateReq incr x y w h => [3] ++ (incr :: be16 x ++ be16 y ++ be16 w ++ be16 h)
  | .keyEvent down key => [4] ++ (down :: skip 0 :: skip 1 :: be32 key)
  | .pointerEvent mask x y => [5] ++ (mask :: be16 x ++ be16 y)
  | .clientCutText len =>
    [6] ++ ((skip 0 :: skip 1 :: skip 2 :: be32 len)
      ++ (List.range len.toNat).map fun i => skip (3 + i))

/-- The number of encodings fits its field, and a pixel is 8, 16 or 32 bits. -/
def ClientMsg.WellFormed : ClientMsg → Prop
  | .setPixelFormat f => f.bpp = 8 ∨ f.bpp = 16 ∨ f.bpp = 32
  | .setEncodings encodings => encodings.length < 2 ^ 16
  | _ => True

instance : DecidablePred ClientMsg.WellFormed
  | .setPixelFormat f => inferInstanceAs (Decidable (f.bpp = 8 ∨ f.bpp = 16 ∨ f.bpp = 32))
  | .setEncodings encodings => inferInstanceAs (Decidable (encodings.length < 2 ^ 16))
  | .fbUpdateReq .. | .keyEvent .. | .pointerEvent .. | .clientCutText .. => .isTrue trivial

/-- The client's side of the handshake. -/
structure Hello where
  version : List Byte
  shared : Byte
  length_version : version.length = 12

def Hello.wire (hello : Hello) : List Byte := hello.version ++ ([1] ++ [hello.shared])

/-! ## What reading takes -/

theorem rd16_bytes (v : BitVec 16) :
    ((v >>> 8).setWidth 8).setWidth 16 <<< 8 ||| (v.setWidth 8).setWidth 16 = v := by
  ext i hi
  by_cases h : i < 8 <;> simp (disch := omega) [h, BitVec.getLsbD_eq_getElem]

/-- **`recv_discard` takes any text.** -/
theorem takes_recvDiscardLoop (fuel : ℕ) (text : List Byte) (h : text.length ≤ fuel) :
    Takes (recvDiscardLoop fuel text.length) text () := by
  induction fuel generalizing text with
  | zero =>
    obtain rfl : text = [] := List.length_eq_zero_iff.mp (by omega)
    exact Takes.pure ()
  | succ fuel ih =>
    rw [recvDiscardLoop]
    split_ifs with h0
    · obtain rfl : text = [] := List.length_eq_zero_iff.mp h0
      exact Takes.pure ()
    · have hrest : text.length - min text.length 64 = (text.drop 64).length := by
        rw [List.length_drop]
        omega
      have hchunk : Takes (recvAll (min text.length 64)) (text.take 64) (text.take 64) :=
        takes_recvAll (by rw [List.length_take, Nat.min_comm])
      rw [hrest]
      have htakes := hchunk.bind (f := fun _ => recvDiscardLoop fuel (text.drop 64).length)
        (ih (text.drop 64) (by rw [List.length_drop]; omega))
      rwa [List.take_append_drop] at htakes

theorem takes_recvEncodings (encodings : List (BitVec 32)) :
    Takes (recvEncodings encodings.length) (encodings.flatMap be32) encodings := by
  refine Takes.loop be32 (fun es => es) (fun done e => ?_) encodings
  exact (takes_recvAll rfl).bind_pure (congrArg (fun e => done ++ [e]) (packed_bytes e))

/-- **Reading a message takes exactly its bytes**, and returns its fields. -/
theorem takes_readMessage {m : ClientMsg} (hm : m.WellFormed) (skip : ℕ → Byte) :
    Takes readMessage (m.wire skip) m := by
  have htype (type : Byte) {body : List Byte} (hbody : Takes (readBody type.toNat) body m) :
      Takes readMessage ([type] ++ body) m := (takes_recvAll rfl).bind hbody
  cases m with
  | setPixelFormat f =>
    refine htype 0 ((takes_recvAll rfl).bind_pure ?_)
    simp [parsePixfmt, Pixfmt.wire, be16, rd16, rd16_bytes]
  | setEncodings encodings =>
    refine htype 2 ((takes_recvAll rfl).bind ?_)
    have hlen : (rd16 (skip 0 :: be16 (BitVec.ofNat 16 encodings.length)) 1).toNat
        = encodings.length := by
      simp only [be16, rd16, List.getD_cons_succ, List.getD_cons_zero, rd16_bytes]
      exact Nat.mod_eq_of_lt hm
    rw [hlen]
    exact (takes_recvEncodings encodings).bind_pure rfl
  | fbUpdateReq incr x y w h =>
    refine htype 3 ((takes_recvAll rfl).bind_pure ?_)
    simp [be16, rd16, rd16_bytes]
  | keyEvent down key =>
    refine htype 4 ((takes_recvAll rfl).bind_pure ?_)
    simp [be32, rd32, packed_bytes]
  | pointerEvent mask x y =>
    refine htype 5 ((takes_recvAll rfl).bind_pure ?_)
    simp [be16, rd16, rd16_bytes]
  | clientCutText len =>
    refine htype 6 ((takes_recvAll rfl).bind ?_)
    have hlen : rd32 (skip 0 :: skip 1 :: skip 2 :: be32 len) 3 = len := by
      simp only [be32, rd32, List.getD_cons_succ, List.getD_cons_zero, packed_bytes]
    rw [hlen]
    have hdiscard := takes_recvDiscardLoop len.toNat
      ((List.range len.toNat).map fun i => skip (3 + i)) (by simp)
    rw [List.length_map, List.length_range] at hdiscard
    exact hdiscard.bind_pure rfl

theorem takes_readHandshake (hello : Hello) : Takes readHandshake hello.wire () := by
  refine (takes_recvAll hello.length_version).bind ((takes_recvAll rfl).bind ?_)
  exact (takes_recvAll rfl).bind_pure rfl

end KlaussRuntime.Vnc
