import KlaussRuntime.Machinery.Gcm
import KlaussRuntime.Machinery.Runs

/-!
# Crypto/Units — the AES and GHASH units behind their registers

Each unit works on its own while the processor goes on: a start leaves a job behind, and only a wait
brings its result into the registers.  Whoever reads or writes a unit's registers while its job runs
would see something that depends on timing, so such an access is a fault, and so is waiting for a
result that no job will bring.  A driver that `Runs` never does either.

What a unit holds is said by a few predicates (`Aes.Idle`, `Aes.CountingBy`, `Aes.WorkingBy`,
`Ghash.Holds`, `Ghash.Settles`), and each register sequence the drivers use takes one of them to
another; `Aes.Counting` and `Aes.Working` are the two for GCM's 32-bit step.
-/

namespace KlaussRuntime.Crypto

open Machinery Machinery.Gcm

/-- What the units compute under the loaded key: the block function, and the field multiplication. -/
structure Units where
  encrypt : Block → Block
  mul : Block → Block → Block

/-! ## Register pairs -/

/-- Two 64-bit registers hold a block, bytes 0–7 and 8–15. -/
def block (lo hi : BitVec 64) : Block := hi ++ lo

def lowWord (b : Block) : BitVec 64 := b.extractLsb' 0 64
def highWord (b : Block) : BitVec 64 := b.extractLsb' 64 64

theorem block_words (b : Block) : block (lowWord b) (highWord b) = b := by
  rw [block, highWord, lowWord,
    BitVec.extractLsb'_append_extractLsb'_eq_extractLsb' (show 64 = 0 + 64 from rfl)]
  exact BitVec.extractLsb'_eq_self

theorem toNat_block (lo hi : BitVec 64) : (block lo hi).toNat = lo.toNat + 2 ^ 64 * hi.toNat := by
  rw [block, BitVec.toNat_append, ← Nat.shiftLeft_add_eq_or_of_lt lo.isLt, Nat.shiftLeft_eq]
  ring

theorem block_xor (a b c d : BitVec 64) : block (a ^^^ c) (b ^^^ d) = block a b ^^^ block c d :=
  BitVec.xor_append.symm

theorem block_word {xs ys : List Byte} (hx : xs.length = 8) (hy : ys.length ≤ 8) :
    block (word xs) (word ys) = ofBytes (xs ++ ys) := by
  refine BitVec.eq_of_toNat_eq ?_
  rw [toNat_block, toNat_word hx.le, toNat_word hy, toNat_ofBytes (by simp; omega), leNat_append, hx]
  norm_num

theorem block_word_take {bs : List Byte} (h : bs.length = 16) :
    block (word (bs.take 8)) (word (bs.drop 8)) = ofBytes bs := by
  rw [block_word (by simp [h]) (by simp [h]), List.take_append_drop]

theorem toBytes_block (lo hi : BitVec 64) : toBytes (block lo hi) = wordBytes lo ++ wordBytes hi := by
  have hlen : (wordBytes lo ++ wordBytes hi).length = 16 := by simp
  rw [← toBytes_ofBytes hlen]
  refine congrArg toBytes (BitVec.eq_of_toNat_eq ?_)
  rw [toNat_ofBytes hlen.le, leNat_append, leNat_wordBytes, leNat_wordBytes, length_wordBytes,
    toNat_block]
  norm_num

theorem wordBytes_append (b : Block) :
    wordBytes (lowWord b) ++ wordBytes (highWord b) = toBytes b := by
  rw [← toBytes_block, block_words]

/-! ## The AES unit -/

structure Aes where
  in0 : BitVec 64
  in1 : BitVec 64
  out0 : BitVec 64
  out1 : BitVec 64
  ctr0 : BitVec 64
  ctr1 : BitVec 64
  /-- AES_MODE_CTR -/
  ctrMode : Bool
  /-- AES_MODE_INC32 -/
  inc32 : Bool
  /-- AES_STATUS_DONE -/
  done : Bool
  /-- AES_STATUS_BUSY, with the block that will come out -/
  job : Option Block

/-- The whole counter block, as a big-endian integer, plus one. -/
def incFull (b : Block) : Block := ofBytes (beBytes 16 (beNat (toBytes b) + 1))

/-- The step of the counter that AES_MODE_INC32 selects. -/
def stepBy (inc32 : Bool) (b : Block) : Block := if inc32 then Gcm.inc32 b else incFull b

/-- The keystream of the unit's counter mode. -/
def unitStream (U : Units) (inc32 : Bool) (icb : Block) (i : ℕ) : Block :=
  U.encrypt ((stepBy inc32)^[i] icb)

namespace Aes

variable {α : Type} (U : Units)

/-- A register access, faulting while a job runs. -/
def access (f : Aes → α × Aes) : Prog Aes α := fun a => if a.job.isSome then none else some (f a)

def writeIn0 (v : BitVec 64) : Prog Aes Unit := access fun a => ((), { a with in0 := v })

/-- In CTR mode the write starts a block: `OUT = E(CTR) xor IN`, then `CTR++`. -/
def writeIn1 (v : BitVec 64) : Prog Aes Unit := access fun a => ((),
  if a.ctrMode then
    let ctr := block a.ctr0 a.ctr1
    let next := if a.inc32 then Gcm.inc32 ctr else incFull ctr
    { a with
      in1 := v, ctr0 := lowWord next, ctr1 := highWord next, done := false
      job := some (U.encrypt ctr ^^^ block a.in0 v) }
  else { a with in1 := v })

/-- `AES_CTRL = GO | ENC`: one raw block on IN. -/
def goEnc : Prog Aes Unit := access fun a => ((),
  { a with done := false, job := some (U.encrypt (block a.in0 a.in1)) })

def writeCtr (w0 w1 : BitVec 64) : Prog Aes Unit :=
  access fun a => ((), { a with ctr0 := w0, ctr1 := w1 })

def writeMode (ctr inc : Bool) : Prog Aes Unit :=
  access fun a => ((), { a with ctrMode := ctr, inc32 := inc })

def readOut : Prog Aes (BitVec 64 × BitVec 64) := access fun a => ((a.out0, a.out1), a)

def readCtr : Prog Aes (BitVec 64 × BitVec 64) := access fun a => ((a.ctr0, a.ctr1), a)

/-- The unit once its job is over. -/
def finish (a : Aes) : Aes :=
  match a.job with
  | some b => { a with out0 := lowWord b, out1 := highWord b, done := true, job := none }
  | none => a

/-- `aes_wait`: until BUSY falls. -/
def wait : Prog Aes Unit := fun a => some ((), a.finish)

/-- `aes_wait_out`: until BUSY falls and DONE stands, which it never does without a job or a result. -/
def waitOut : Prog Aes Unit := fun a => if a.finish.done then some ((), a.finish) else none

/-- No job, and MODE = 0. -/
structure Idle (a : Aes) : Prop where
  job : a.job = none
  ctrMode : a.ctrMode = false

/-- No job, MODE = CTR|INC32 and the counter block in CTR. -/
structure Counting (ctr : Block) (a : Aes) : Prop where
  job : a.job = none
  ctrMode : a.ctrMode = true
  inc32 : a.inc32 = true
  ctr : block a.ctr0 a.ctr1 = ctr

/-- The same with a job that will bring `out`. -/
structure Working (ctr out : Block) (a : Aes) : Prop where
  job : a.job = some out
  ctrMode : a.ctrMode = true
  inc32 : a.inc32 = true
  ctr : block a.ctr0 a.ctr1 = ctr

/-- No job, MODE = CTR with the one step or the other, and the counter block in CTR. -/
structure CountingBy (i : Bool) (ctr : Block) (a : Aes) : Prop where
  job : a.job = none
  ctrMode : a.ctrMode = true
  inc32 : a.inc32 = i
  ctr : block a.ctr0 a.ctr1 = ctr

/-- The same with a job that will bring `out`. -/
structure WorkingBy (i : Bool) (ctr out : Block) (a : Aes) : Prop where
  job : a.job = some out
  ctrMode : a.ctrMode = true
  inc32 : a.inc32 = i
  ctr : block a.ctr0 a.ctr1 = ctr

variable {U} {a : Aes} {ctr out : Block} {i : Bool}

theorem counting_iff : a.Counting ctr ↔ a.CountingBy true ctr :=
  ⟨fun h => ⟨h.job, h.ctrMode, h.inc32, h.ctr⟩, fun h => ⟨h.job, h.ctrMode, h.inc32, h.ctr⟩⟩

theorem working_iff : a.Working ctr out ↔ a.WorkingBy true ctr out :=
  ⟨fun h => ⟨h.job, h.ctrMode, h.inc32, h.ctr⟩, fun h => ⟨h.job, h.ctrMode, h.inc32, h.ctr⟩⟩

theorem runs_access {f : Aes → α × Aes} {Q : α → Aes → Prop} (h : a.job = none)
    (hQ : Q (f a).1 (f a).2) : Runs (access f) a Q :=
  Runs.gated (g := f) (Option.isSome_eq_false_iff.mpr (Option.isNone_iff_eq_none.mpr h)) hQ

theorem runs_access_bind {β : Type} {f : Aes → α × Aes} {k : α → Prog Aes β}
    {Q : β → Aes → Prop} (h : a.job = none) (hk : Runs (k (f a).1) (f a).2 Q) :
    Runs (access f >>= k) a Q :=
  Runs.gated_bind (g := f) (Option.isSome_eq_false_iff.mpr (Option.isNone_iff_eq_none.mpr h)) hk

theorem CountingBy.start (h : a.CountingBy i ctr) (w0 w1 : BitVec 64) :
    Runs (do writeIn0 w0; writeIn1 U w1) a fun _ a' =>
      a'.WorkingBy i (stepBy i ctr) (U.encrypt ctr ^^^ block w0 w1) := by
  refine runs_access_bind h.job (runs_access h.job ?_)
  simp only [h.ctrMode, h.inc32, h.ctr, if_true]
  exact ⟨rfl, rfl, rfl, block_words _⟩

theorem Counting.start (h : a.Counting ctr) (w0 w1 : BitVec 64) :
    Runs (do writeIn0 w0; writeIn1 U w1) a fun _ a' =>
      a'.Working (Gcm.inc32 ctr) (U.encrypt ctr ^^^ block w0 w1) :=
  ((counting_iff.mp h).start w0 w1).mono fun _ _ => working_iff.mpr

theorem WorkingBy.takeOut (h : a.WorkingBy i ctr out) :
    Runs (do waitOut; readOut) a fun r a' =>
      r = (lowWord out, highWord out) ∧ a'.CountingBy i ctr := by
  have hfin : a.finish
      = { a with out0 := lowWord out, out1 := highWord out, done := true, job := none } := by
    simp only [finish, h.job]
  refine Runs.bind (P := fun _ a' => a' = a.finish) ⟨(), a.finish, ?_, rfl⟩ ?_
  · simp only [StateT.run, waitOut, hfin, if_true]
  · rintro _ _ rfl
    rw [hfin]
    exact runs_access rfl ⟨rfl, rfl, h.ctrMode, h.inc32, h.ctr⟩

theorem Working.takeOut (h : a.Working ctr out) :
    Runs (do waitOut; readOut) a fun r a' =>
      r = (lowWord out, highWord out) ∧ a'.Counting ctr :=
  (working_iff.mp h).takeOut.mono fun _ _ hr => ⟨hr.1, counting_iff.mpr hr.2⟩

theorem runs_wait {Q : Unit → Aes → Prop} (h : a.job = none) (hQ : Q () a) : Runs wait a Q :=
  ⟨(), a, by simp only [StateT.run, wait, finish, h], hQ⟩

theorem Idle.ecb (h : a.Idle) (w0 w1 : BitVec 64) :
    Runs (do writeIn0 w0; writeIn1 U w1; goEnc U; wait; readOut) a fun r a' =>
      r = (lowWord (U.encrypt (block w0 w1)), highWord (U.encrypt (block w0 w1))) ∧ a'.Idle := by
  refine runs_access_bind h.job (runs_access_bind h.job ?_)
  -- outside CTR mode the write to IN1 starts nothing
  simp only [h.ctrMode, Bool.false_eq_true, if_false]
  refine runs_access_bind h.job (Runs.bind (P := fun _ a' => a' = { a with
    in0 := w0, in1 := w1, ctrMode := false, done := true, job := none
    out0 := lowWord (U.encrypt (block w0 w1)), out1 := highWord (U.encrypt (block w0 w1)) })
    ⟨(), _, rfl, rfl⟩ ?_)
  rintro _ _ rfl
  exact runs_access rfl ⟨rfl, rfl, rfl⟩

theorem Idle.enterCtrBy (h : a.Idle) (i : Bool) (w0 w1 : BitVec 64) :
    Runs (do writeCtr w0 w1; writeMode true i) a fun _ a' => a'.CountingBy i (block w0 w1) :=
  runs_access_bind h.job (runs_access h.job ⟨h.job, rfl, rfl, rfl⟩)

theorem Idle.enterCtr (h : a.Idle) (w0 w1 : BitVec 64) :
    Runs (do writeCtr w0 w1; writeMode true true) a fun _ a' => a'.Counting (block w0 w1) :=
  (h.enterCtrBy true w0 w1).mono fun _ _ => counting_iff.mpr

theorem CountingBy.leaveCtr (h : a.CountingBy i ctr) :
    Runs (writeMode false false) a fun _ a' => a'.Idle :=
  runs_access h.job ⟨h.job, rfl⟩

theorem Counting.leaveCtr (h : a.Counting ctr) :
    Runs (writeMode false false) a fun _ a' => a'.Idle := (counting_iff.mp h).leaveCtr

end Aes

/-! ## The GHASH unit -/

structure Ghash where
  h0 : BitVec 64
  h1 : BitVec 64
  x0 : BitVec 64
  x1 : BitVec 64
  tag : Block
  /-- GCM_STATUS_BUSY -/
  busy : Bool

namespace Ghash

variable {α : Type} (U : Units)

def access (f : Ghash → α × Ghash) : Prog Ghash α := fun g => if g.busy then none else some (f g)

def writeH (w0 w1 : BitVec 64) : Prog Ghash Unit := access fun g => ((), { g with h0 := w0, h1 := w1 })

def writeX (w0 w1 : BitVec 64) : Prog Ghash Unit := access fun g => ((), { g with x0 := w0, x1 := w1 })

/-- `GCM_CTRL = RESET`. -/
def reset : Prog Ghash Unit := access fun g => ((), { g with tag := 0 })

/-- `GCM_CTRL = GO`: starts `tag = (tag xor X) * H`. -/
def go : Prog Ghash Unit := access fun g => ((), { g with busy := true })

def readTag : Prog Ghash (BitVec 64 × BitVec 64) :=
  access fun g => ((lowWord g.tag, highWord g.tag), g)

/-- The tag once the running step, if there is one, is over. -/
def settled (g : Ghash) : Block :=
  if g.busy then U.mul (g.tag ^^^ block g.x0 g.x1) (block g.h0 g.h1) else g.tag

/-- `gcm_wait_done`. -/
def waitDone : Prog Ghash Unit := fun g => some ((), { g with tag := g.settled U, busy := false })

/-- `gcm_ghash_block`: accumulate one block and wait. -/
def gcmGhashBlock (w0 w1 : BitVec 64) : Prog Ghash Unit := do
  writeX w0 w1
  go
  waitDone U

/-- The unit rests, with H and the tag. -/
structure Holds (h tag : Block) (g : Ghash) : Prop where
  busy : g.busy = false
  h : block g.h0 g.h1 = h
  tag : g.tag = tag

/-- The unit has H and will have the tag when its step, if it works on one, is over. -/
structure Settles (h tag : Block) (g : Ghash) : Prop where
  h : block g.h0 g.h1 = h
  tag : g.settled U = tag

variable {U} {g : Ghash} {h tag : Block}

theorem runs_access {f : Ghash → α × Ghash} {Q : α → Ghash → Prop} (hidle : g.busy = false)
    (hQ : Q (f g).1 (f g).2) : Runs (access f) g Q := Runs.gated (g := f) hidle hQ

theorem runs_access_bind {β : Type} {f : Ghash → α × Ghash} {k : α → Prog Ghash β}
    {Q : β → Ghash → Prop} (hidle : g.busy = false) (hk : Runs (k (f g).1) (f g).2 Q) :
    Runs (access f >>= k) g Q := Runs.gated_bind (g := f) hidle hk

theorem Holds.settles (hg : g.Holds h tag) : g.Settles U h tag :=
  ⟨hg.h, by rw [settled, hg.busy]; exact hg.tag⟩

theorem Settles.waitDone (hg : g.Settles U h tag) :
    Runs (waitDone U) g fun _ g' => g'.Holds h tag :=
  ⟨(), _, rfl, rfl, hg.h, hg.tag⟩

theorem Holds.start (hg : g.Holds h tag) (w0 w1 : BitVec 64) :
    Runs (do writeX w0 w1; go) g fun _ g' => g'.Settles U h (U.mul (tag ^^^ block w0 w1) h) := by
  refine runs_access_bind hg.busy (runs_access hg.busy ⟨hg.h, ?_⟩)
  rw [settled, if_pos rfl, hg.tag, hg.h]

theorem Holds.gcmGhashBlock (hg : g.Holds h tag) (w0 w1 : BitVec 64) :
    Runs (gcmGhashBlock U w0 w1) g fun _ g' => g'.Holds h (U.mul (tag ^^^ block w0 w1) h) := by
  refine runs_access_bind hg.busy (runs_access_bind hg.busy (Settles.waitDone ⟨hg.h, ?_⟩))
  rw [settled, if_pos rfl, hg.tag, hg.h]

theorem runs_writeH (hidle : g.busy = false) (w0 w1 : BitVec 64) :
    Runs (writeH w0 w1) g fun _ g' => g'.Holds (block w0 w1) g.tag :=
  runs_access hidle ⟨hidle, rfl, rfl⟩

theorem Holds.reset (hg : g.Holds h tag) : Runs reset g fun _ g' => g'.Holds h 0 :=
  runs_access hg.busy ⟨hg.busy, hg.h, rfl⟩

theorem Holds.readTag (hg : g.Holds h tag) :
    Runs readTag g fun r g' => r = (lowWord tag, highWord tag) ∧ g' = g :=
  runs_access hg.busy ⟨by rw [hg.tag], rfl⟩

end Ghash

end KlaussRuntime.Crypto
