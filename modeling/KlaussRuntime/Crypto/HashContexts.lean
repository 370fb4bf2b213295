import KlaussRuntime.Crypto.Hmac
import KlaussRuntime.Crypto.Psa

/-!
# Crypto/HashContexts — suspended hashes do not influence each other

Any number of contexts share one unit, which holds a context only inside a call.  What a context stands
for is its `History`: the state it started from and the bytes it has taken in since.  Every call takes a
system whose contexts stand for their histories to one whose contexts stand for the histories after the
call (`runs_hashCall`), whatever the unit held and whoever used it before; so a digest is the digest of the
context's own history (`runs_runCalls`), and two interleavings that agree on it agree on the digest
(`suspended_hashes_independent`).
-/

namespace KlaussRuntime.Crypto

open Machinery Machinery.Hashing

variable {α β ι : Type} {U : ShaCore} {caps : BitVec 32} {u : Sha}

/-! ## The PSA entry points -/

theorem runs_psaHashUpdate {c : Rctx} {h₀ : Words 4} {k : ℕ} {m : List Byte} (hu : u.Resting)
    (hc : c.Reached U h₀ k m) (input : List Byte) :
    Runs (psaHashUpdate U c input) u fun r u' => r.2.Reached U h₀ k (m ++ input) ∧ u'.Resting :=
  (runs_sha256HwRupdate hu hc input).bind fun _ _ h => Runs.pure h

/-- **A PSA hash is finished** when the buffer takes a digest, and the context is cleared then. -/
theorem runs_psaHashFinish {c : Rctx} {h₀ : Words 4} {k : ℕ} {m : List Byte} (hu : u.Resting)
    (hc : c.Reached U h₀ k m) (size : ℕ) :
    Runs (psaHashFinish U c size) u fun r u' => u'.Resting ∧
      r = if size < 32 then (.error .bufferTooSmall, c)
        else (.ok (wordsBytes (finish U.step 64 8 h₀ k m)), Rctx.zero) := by
  rw [psaHashFinish]
  split_ifs
  · exact Runs.pure ⟨hu, rfl⟩
  · refine (runs_sha256HwRfinal hu hc).bind ?_
    rintro ⟨_, _⟩ u' ⟨hu', rfl, -⟩
    exact Runs.pure ⟨hu', rfl⟩

/-! ## Other users of the unit -/

/-- The functions that use the SHA and HMAC units and keep nothing in a suspended context.  The contexts
on a stack and the keys are the callers', with any content. -/
inductive UnitCall where
  | sha256Hw (msg : List Byte)
  | sha256HwInit (ctx : Sha256Ctx)
  | sha256HwUpdate (ctx : Sha256Ctx) (data : List Byte)
  | sha256HwFinal (ctx : Sha256Ctx)
  | hmacSha256Sw (ctx : Sha256Ctx) (key msg : List Byte)
  | hmacSha256Hw (key msg : List Byte)
  | hmacSha256HwRkey (c : Rctx) (key : List Byte)
  | hmacSha256HwRmac (c : Rctx) (k : HmacKey) (msg : List Byte)
  | psaHashCompute (ctx : Rctx) (alg : BitVec 32) (input : List Byte) (hashSize : ℕ)

def UnitCall.run (U : ShaCore) (caps : BitVec 32) : UnitCall → Prog Sha Unit
  | .sha256Hw msg => discard (Crypto.sha256Hw U msg)
  | .sha256HwInit ctx => discard (Crypto.sha256HwInit ctx)
  | .sha256HwUpdate ctx data => discard (Crypto.sha256HwUpdate U ctx data)
  | .sha256HwFinal ctx => discard (Crypto.sha256HwFinal U ctx)
  | .hmacSha256Sw ctx key msg => discard (Crypto.hmacSha256Sw U ctx key msg)
  | .hmacSha256Hw key msg => discard (Crypto.hmacSha256Hw U key msg)
  | .hmacSha256HwRkey c key => discard (Crypto.hmacSha256HwRkey U c key)
  | .hmacSha256HwRmac c k msg => discard (Crypto.hmacSha256HwRmac U c k msg)
  | .psaHashCompute ctx alg input size => discard (Crypto.psaHashCompute U caps ctx alg input size)

/-- **A call that is over leaves the unit at rest.** -/
def Settles (p : Prog Sha α) : Prop := ∀ u : Sha, u.Resting → Runs p u fun _ u' => u'.Resting

namespace Settles

variable {p : Prog Sha α} {f : α → Prog Sha β}

theorem pure (a : α) : Settles (Pure.pure a : Prog Sha α) := fun _ hu => Runs.pure hu

theorem bind (hp : Settles p) (hf : ∀ a, Settles (f a)) : Settles (p >>= f) :=
  fun u hu => (hp u hu).bind fun a u' hu' => hf a u' hu'

theorem discard (hp : Settles p) : Settles (Functor.discard p) := fun u hu =>
  (hp u hu).bind fun _ _ hu' => Runs.pure hu'

theorem loop {body : ℕ → β → Prog Sha β} (h : ∀ i b, Settles (body i b)) (n : ℕ) (b : β) :
    Settles (Machinery.loop body n b) := fun _ hu =>
  Runs.loop (fun _ _ u' => u'.Resting) hu fun i _ b u' hu' => h i b u' hu'

theorem ite {c : Prop} [Decidable c] {q : Prog Sha α} (hp : Settles p) (hq : Settles q) :
    Settles (if c then p else q) := by
  split_ifs
  · exact hp
  · exact hq

theorem access {g : Sha → α × Sha} (h : ∀ u : Sha, u.Resting → (g u).2.Resting) :
    Settles (Sha.access g) := fun u hu => Sha.runs_access hu (h u hu)

theorem compressBlock (data : List Byte) : Settles (compressBlock U data) := fun _ hu =>
  (runs_compressBlock hu.holds data).mono fun _ _ h => h.resting

theorem compressBlocks (data : List Byte) (n : ℕ) : Settles (compressBlocks U data n) :=
  loop (fun i _ => compressBlock (block64 data i)) n ()

theorem shaReadDigest : Settles shaReadDigest := fun _ hu =>
  (runs_shaReadDigest hu.holds).mono fun _ _ h => h.2.resting

theorem sha256HwUpdate (ctx : Sha256Ctx) (data : List Byte) : Settles (sha256HwUpdate U ctx data) := by
  have hfill : ∀ ctx d, Settles (fillBuf U ctx d) := fun ctx d =>
    ite (ite ((compressBlock _).bind fun _ => pure _) (pure _)) (pure _)
  exact (hfill _ data).bind fun p => (compressBlocks _ _).bind fun _ => pure _

theorem sha256HwFinal (ctx : Sha256Ctx) : Settles (sha256HwFinal U ctx) := by
  have hpad : ∀ pad blocks, Settles (compressPad U pad blocks) := fun pad blocks =>
    (ite (compressBlock _) (pure _)).bind fun _ => compressBlock _
  exact ((hpad _ _).bind fun _ => shaReadDigest).bind fun _ => pure _

theorem hmacSha256Hw (key msg : List Byte) : Settles (hmacSha256Hw U key msg) := by
  have hwait : Settles (Sha.hmacWait U) := fun u hu => hu.hmacWait hu
  have hload : Settles (do Sha.keyLoad; Sha.hmacWait U) := fun u hu =>
    Sha.runs_access_bind hu ⟨(), _, rfl, rfl⟩
  have hinner : Settles (hmacInner U msg) :=
    (access fun _ hu => hu).bind fun _ => hwait.bind fun _ => (compressBlocks _ _).bind fun _ =>
      (compressBlocks _ _).bind fun _ => shaReadDigest
  have houter : ∀ inner, Settles (hmacOuter U inner) := fun inner =>
    (access fun _ hu => hu).bind fun _ => hwait.bind fun _ => (compressBlock _).bind fun _ =>
      shaReadDigest
  rw [Crypto.hmacSha256Hw]
  refine (access fun _ hu => hu).bind fun _ => ?_
  rw [← bind_assoc]
  exact hload.bind fun _ => hinner.bind houter

/-- A hash taken in one go from any state, in a context on the stack. -/
theorem rupdate_rfinal {c : Rctx} {h₀ : Words 4} {k : ℕ} (hc : c.Reached U h₀ k []) (d : List Byte)
    {f : List Byte × Rctx → Prog Sha β} (hf : ∀ r, Settles (f r)) :
    Settles (do let c ← sha256HwRupdate U c d; let r ← sha256HwRfinal U c; f r) := fun _ hu =>
  (runs_sha256HwRupdate hu hc d).bind fun _ _ h =>
    (runs_sha256HwRfinal h.2 h.1).bind fun r u' hr => hf r u' hr.1

theorem hmacSha256HwRmac (c : Rctx) (k : HmacKey) (msg : List Byte) :
    Settles (hmacSha256HwRmac U c k msg) :=
  rupdate_rfinal (reached_sha256HwRinitFrom c k.ih 64) msg fun r =>
    rupdate_rfinal (reached_sha256HwRinitFrom r.2 k.oh 64) r.1 fun _ => pure _

theorem psaHashCompute (ctx : Rctx) (alg : BitVec 32) (input : List Byte) (size : ℕ) :
    Settles (psaHashCompute U caps ctx alg input size) := by
  rw [Crypto.psaHashCompute, psaHashSetup]
  cases shaHw caps alg with
  | false => exact pure _
  | true =>
    intro u hu
    refine Runs.bind (runs_psaHashUpdate hu (reached_sha256HwRinit ctx) input) fun r u' hr => ?_
    exact (runs_psaHashFinish hr.2 hr.1 size).bind fun _ _ h => Runs.pure h.1

end Settles

theorem UnitCall.settles (k : UnitCall) : Settles (k.run U caps) := by
  cases k with
  | sha256Hw msg => exact Settles.discard fun _ hu => (runs_sha256Hw hu msg).mono fun _ _ h => h.2
  | sha256HwInit ctx =>
    exact Settles.discard fun _ hu => (runs_sha256HwInit (U := U) hu ctx).mono fun _ _ h => h.2.resting
  | sha256HwUpdate ctx data => exact (Settles.sha256HwUpdate ctx data).discard
  | sha256HwFinal ctx => exact (Settles.sha256HwFinal ctx).discard
  | hmacSha256Sw ctx key msg =>
    exact Settles.discard fun _ hu => (runs_hmacSha256Sw hu ctx key msg).mono fun _ _ h => h.2
  | hmacSha256Hw key msg => exact (Settles.hmacSha256Hw key msg).discard
  | hmacSha256HwRkey c key =>
    exact Settles.discard fun _ hu => (runs_hmacSha256HwRkey hu c key).mono fun _ _ h => h.2
  | hmacSha256HwRmac c k msg => exact (Settles.hmacSha256HwRmac c k msg).discard
  | psaHashCompute ctx alg input size => exact (Settles.psaHashCompute ctx alg input size).discard

/-! ## Contexts that share the unit -/

structure HashSystem (ι : Type) where
  sha : Sha
  ctx : ι → Rctx

/-- A call with a context. -/
def withCtx [DecidableEq ι] (c : ι) (f : Rctx → Prog Sha (α × Rctx)) : Prog (HashSystem ι) α := fun s =>
  ((f (s.ctx c)).run s.sha).map fun ((a, r), u) => (a, ⟨u, Function.update s.ctx c r⟩)

inductive HashCall (ι : Type) where
  | rinit (c : ι)
  | rinitFrom (c : ι) (h : Words 4) (hashed : BitVec 64)
  | rupdate (c : ι) (data : List Byte)
  | rfinal (c : ι)
  | psaSetup (c : ι) (alg : BitVec 32)
  | psaClone (src dst : ι)
  | psaUpdate (c : ι) (input : List Byte)
  | psaFinish (c : ι) (hashSize : ℕ)
  | psaAbort (c : ι)
  | other (k : UnitCall)

/-- The digest a call returns, if it returns one. -/
def HashCall.run [DecidableEq ι] (U : ShaCore) (caps : BitVec 32) :
    HashCall ι → Prog (HashSystem ι) (Option (List Byte))
  | .rinit c => withCtx c fun r => return (none, sha256HwRinit r)
  | .rinitFrom c h hashed => withCtx c fun r => return (none, sha256HwRinitFrom r h hashed)
  | .rupdate c data => withCtx c fun r => do return (none, ← sha256HwRupdate U r data)
  | .rfinal c => withCtx c fun r => do
      let (out, r) ← sha256HwRfinal U r
      return (some out, r)
  | .psaSetup c alg => withCtx c fun r => return (none, (psaHashSetup caps r alg).2)
  | .psaClone src dst => fun s => some (none,
      { s with ctx := Function.update s.ctx dst (psaHashClone (s.ctx src)).2 })
  | .psaUpdate c input => withCtx c fun r => do return (none, (← psaHashUpdate U r input).2)
  | .psaFinish c size => withCtx c fun r => do
      let (hash, r) ← psaHashFinish U r size
      return (hash.toOption, r)
  | .psaAbort c => withCtx c fun _ => return (none, psaHashAbort.2)
  | .other k => zoom (·.sha) (fun u s => { s with sha := u }) do
      k.run U caps
      return none

/-! ## Histories -/

/-- What a context stands for: the state it started from, the number of bytes behind that state, and the
bytes taken in since. -/
structure History where
  h : Words 4
  hashed : ℕ
  bytes : List Byte

namespace History

/-- A hash that starts afresh. -/
def fresh : History := ⟨words 4 initialHash, 0, []⟩

/-- What a cleared context stands for. -/
def cleared : History := ⟨fun _ => 0, 0, []⟩

/-- The end state of the hash. -/
def last (U : ShaCore) (H : History) : Words 4 := finish U.step 64 8 H.h H.hashed H.bytes

def digest (U : ShaCore) (H : History) : List Byte := wordsBytes (H.last U)

/-- After its end a hash stands on its end state. -/
def ended (U : ShaCore) (H : History) : History := ⟨H.last U, H.hashed + H.bytes.length, []⟩

def Stands (U : ShaCore) (H : History) (c : Rctx) : Prop := c.Reached U H.h H.hashed H.bytes

theorem digest_fresh (bytes : List Byte) :
    digest U { fresh with bytes := bytes } = U.sha256 bytes := by
  rw [ShaCore.sha256, digest_eq (by norm_num)]
  rfl

end History

namespace HashCall

/-- The histories after a call; a context that was never set up has none. -/
def track [DecidableEq ι] (U : ShaCore) (caps : BitVec 32) (H : ι → Option History) :
    HashCall ι → ι → Option History
  | .rinit c => Function.update H c (some .fresh)
  | .rinitFrom c h hashed => Function.update H c (some ⟨h, hashed.toNat, []⟩)
  | .rupdate c data | .psaUpdate c data =>
    Function.update H c ((H c).map fun h => { h with bytes := h.bytes ++ data })
  | .rfinal c => Function.update H c ((H c).map (·.ended U))
  | .psaSetup c alg => if shaHw caps alg then Function.update H c (some .fresh) else H
  | .psaClone src dst => Function.update H dst (H src)
  | .psaFinish c size => if size < 32 then H else Function.update H c (some .cleared)
  | .psaAbort c => Function.update H c (some .cleared)
  | .other _ => H

/-- The digest a call returns, from the histories. -/
def reply (U : ShaCore) (H : ι → Option History) : HashCall ι → Option (List Byte)
  | .rfinal c => (H c).map (·.digest U)
  | .psaFinish c size => if size < 32 then none else (H c).map (·.digest U)
  | _ => none

/-- The context a call reads. -/
def reads : HashCall ι → Option ι
  | .rupdate c _ | .rfinal c | .psaUpdate c _ | .psaFinish c _ => some c
  | _ => none

/-- Bytes go only into a context that was set up, and only such a context is finished. -/
def Proper (H : ι → Option History) (k : HashCall ι) : Prop := ∀ c ∈ k.reads, (H c).isSome

instance (H : ι → Option History) : DecidablePred (Proper H) := fun k =>
  inferInstanceAs (Decidable (∀ c ∈ k.reads, (H c).isSome))

/-- The call ends the hash of a context and has room for its digest. -/
def Finishes (c : ι) : HashCall ι → Prop
  | .rfinal c' => c' = c
  | .psaFinish c' size => c' = c ∧ 32 ≤ size
  | _ => False

theorem Finishes.proper_and_reply {c : ι} {k : HashCall ι} (hk : k.Finishes c) {H : ι → Option History}
    {h : History} (hh : H c = some h) : k.Proper H ∧ k.reply U H = some (h.digest U) := by
  cases k with
  | rfinal c' =>
    obtain rfl : c' = c := hk
    refine ⟨?_, by rw [reply, hh]; rfl⟩
    rintro _ ⟨⟩
    exact Option.isSome_of_eq_some hh
  | psaFinish c' size =>
    obtain ⟨rfl, hsize⟩ := hk
    refine ⟨?_, by rw [reply, if_neg (not_lt.mpr hsize), hh]; rfl⟩
    rintro _ ⟨⟩
    exact Option.isSome_of_eq_some hh
  | _ => exact hk.elim

end HashCall

/-- The unit rests, and every context that was set up stands for its history. -/
structure HashSystem.Tracks (U : ShaCore) (H : ι → Option History) (s : HashSystem ι) : Prop where
  resting : s.sha.Resting
  stands : ∀ c h, H c = some h → h.Stands U (s.ctx c)


variable [DecidableEq ι] {H : ι → Option History} {s : HashSystem ι}

theorem runs_withCtx {c : ι} {f : Rctx → Prog Sha (α × Rctx)} {Q : α → HashSystem ι → Prop}
    (hf : Runs (f (s.ctx c)) s.sha fun r u => Q r.1 ⟨u, Function.update s.ctx c r.2⟩) :
    Runs (withCtx c f) s Q := by
  obtain ⟨r, u, hrun, hQ⟩ := hf
  exact ⟨r.1, _, by rw [StateT.run, withCtx, hrun]; rfl, hQ⟩

namespace HashSystem.Tracks

theorem update (hs : s.Tracks U H) (hu : u.Resting) {c : ι} {r : Rctx} {new : Option History}
    (hnew : ∀ h, new = some h → h.Stands U r) :
    Tracks U (Function.update H c new) ⟨u, Function.update s.ctx c r⟩ := by
  refine ⟨hu, fun c' h hc' => ?_⟩
  by_cases hc : c' = c
  · subst hc
    rw [Function.update_self] at hc'
    change h.Stands U (Function.update s.ctx c' r c')
    rw [Function.update_self]
    exact hnew h hc'
  · rw [Function.update_of_ne hc] at hc'
    change h.Stands U (Function.update s.ctx c r c')
    rw [Function.update_of_ne hc]
    exact hs.stands c' h hc'

theorem keep (hs : s.Tracks U H) (hu : u.Resting) (c : ι) :
    Tracks U H ⟨u, Function.update s.ctx c (s.ctx c)⟩ := by
  rw [Function.update_eq_self]
  exact ⟨hu, hs.stands⟩

end HashSystem.Tracks

theorem stands_zero : History.cleared.Stands U Rctx.zero :=
  ⟨(absorb_of_lt (by decide)).symm, rfl, Buffer.holds_nil _⟩

/-- **One call**: it returns the digest of the history, and every context goes on standing for its own. -/
theorem runs_hashCall (hs : s.Tracks U H) {k : HashCall ι} (hk : k.Proper H) :
    Runs (k.run U caps) s fun r s' => r = k.reply U H ∧ s'.Tracks U (k.track U caps H) := by
  have hu := hs.resting
  cases k with
  | rinit c =>
    rw [HashCall.run]
    refine runs_withCtx (Runs.pure ⟨rfl, hs.update hu ?_⟩)
    rintro _ ⟨⟩
    exact reached_sha256HwRinit _
  | rinitFrom c h hashed =>
    rw [HashCall.run]
    refine runs_withCtx (Runs.pure ⟨rfl, hs.update hu ?_⟩)
    rintro _ ⟨⟩
    have hstart := reached_sha256HwRinitFrom (U := U) (s.ctx c) h hashed.toNat
    rwa [BitVec.ofNat_toNat, BitVec.setWidth_eq] at hstart
  | rupdate c data =>
    rw [HashCall.run]
    obtain ⟨h, hh⟩ := Option.isSome_iff_exists.mp (hk c rfl)
    refine runs_withCtx ((runs_sha256HwRupdate hu (hs.stands c h hh) data).bind fun r u' hr => ?_)
    refine Runs.pure ⟨rfl, hs.update hr.2 ?_⟩
    rw [hh]
    rintro _ ⟨⟩
    exact hr.1
  | rfinal c =>
    rw [HashCall.run]
    obtain ⟨h, hh⟩ := Option.isSome_iff_exists.mp (hk c rfl)
    refine runs_withCtx ((runs_sha256HwRfinal hu (hs.stands c h hh)).bind fun r u' hr => ?_)
    refine Runs.pure ⟨?_, hs.update hr.1 ?_⟩
    · rw [HashCall.reply, hh, hr.2.1]
      rfl
    · rw [hh]
      rintro _ ⟨⟩
      exact hr.2.2
  | psaSetup c alg =>
    rw [HashCall.run]
    refine runs_withCtx (Runs.pure ⟨rfl, ?_⟩)
    rw [HashCall.track, psaHashSetup]
    cases shaHw caps alg with
    | false => exact hs.keep hu c
    | true =>
      refine hs.update hu ?_
      rintro _ ⟨⟩
      exact reached_sha256HwRinit _
  | psaClone src dst => exact ⟨none, _, rfl, rfl, hs.update hu fun h hh => hs.stands src h hh⟩
  | psaUpdate c input =>
    rw [HashCall.run]
    obtain ⟨h, hh⟩ := Option.isSome_iff_exists.mp (hk c rfl)
    refine runs_withCtx ((runs_psaHashUpdate hu (hs.stands c h hh) input).bind fun r u' hr => ?_)
    refine Runs.pure ⟨rfl, hs.update hr.2 ?_⟩
    rw [hh]
    rintro _ ⟨⟩
    exact hr.1
  | psaFinish c size =>
    rw [HashCall.run]
    obtain ⟨h, hh⟩ := Option.isSome_iff_exists.mp (hk c rfl)
    refine runs_withCtx ((runs_psaHashFinish hu (hs.stands c h hh) size).bind ?_)
    rintro r u' ⟨hu', rfl⟩
    rw [HashCall.reply, HashCall.track, hh]
    split_ifs
    · exact Runs.pure ⟨rfl, hs.keep hu' c⟩
    · refine Runs.pure ⟨rfl, hs.update hu' ?_⟩
      rintro _ ⟨⟩
      exact stands_zero
  | psaAbort c =>
    rw [HashCall.run]
    refine runs_withCtx (Runs.pure ⟨rfl, hs.update hu ?_⟩)
    rintro _ ⟨⟩
    exact stands_zero
  | other k =>
    rw [HashCall.run]
    refine Runs.zoom ((k.settles s.sha hu).bind (R := fun r u' => r = none ∧ u'.Resting)
      fun _ _ hu' => Runs.pure ⟨rfl, hu'⟩) ?_
    exact fun r u' hr => ⟨hr.1, hr.2, hs.stands⟩

/-! ## Runs -/

/-- Calls one after the other, with the digests they return. -/
def runCalls (U : ShaCore) (caps : BitVec 32) :
    List (HashCall ι) → Prog (HashSystem ι) (List (Option (List Byte)))
  | [] => return []
  | k :: ks => do
    let r ← k.run U caps
    let rs ← runCalls U caps ks
    return r :: rs

/-- The histories after a list of calls. -/
def histories (U : ShaCore) (caps : BitVec 32) (H : ι → Option History) (ks : List (HashCall ι)) :
    ι → Option History := ks.foldl (HashCall.track U caps) H

/-- The digests of the histories. -/
def replies (U : ShaCore) (caps : BitVec 32) (H : ι → Option History) :
    List (HashCall ι) → List (Option (List Byte))
  | [] => []
  | k :: ks => k.reply U H :: replies U caps (k.track U caps H) ks

def ProperRun (U : ShaCore) (caps : BitVec 32) (H : ι → Option History) : List (HashCall ι) → Prop
  | [] => True
  | k :: ks => k.Proper H ∧ ProperRun U caps (k.track U caps H) ks

instance decidableProperRun (U : ShaCore) (caps : BitVec 32) (H : ι → Option History) :
    (ks : List (HashCall ι)) → Decidable (ProperRun U caps H ks)
  | [] => isTrue trivial
  | k :: ks => @instDecidableAnd _ _ _ (decidableProperRun U caps (k.track U caps H) ks)

/-- **Any interleaving**: every digest is the digest of its context's history. -/
theorem runs_runCalls {ks : List (HashCall ι)} (hs : s.Tracks U H) (hks : ProperRun U caps H ks) :
    Runs (runCalls U caps ks) s fun rs s' => rs = replies U caps H ks ∧
      s'.Tracks U (histories U caps H ks) := by
  induction ks generalizing H s with
  | nil => exact Runs.pure ⟨rfl, hs⟩
  | cons k ks ih =>
    refine (runs_hashCall hs hks.1).bind ?_
    rintro _ s₁ ⟨rfl, hs₁⟩
    refine (ih hs₁ hks.2).bind ?_
    rintro _ s₂ ⟨rfl, hs₂⟩
    exact Runs.pure ⟨rfl, hs₂⟩

/-- A context that is finished after any calls returns the digest of its history. -/
theorem runs_calls_finish {ks : List (HashCall ι)} {k : HashCall ι} {c : ι} {h : History}
    (hs : s.sha.Resting) (hks : ProperRun U caps (fun _ => none) ks)
    (hh : histories U caps (fun _ => none) ks c = some h) (hk : k.Finishes c) :
    Runs (do let _ ← runCalls U caps ks; k.run U caps) s fun r _ => r = some (h.digest U) := by
  have hstart : s.Tracks U fun _ => none := ⟨hs, fun _ _ => nofun⟩
  refine (runs_runCalls hstart hks).bind fun _ s' hs' => ?_
  obtain ⟨hproper, hreply⟩ := hk.proper_and_reply (U := U) hh
  exact (runs_hashCall hs'.2 hproper).mono fun r _ hr => hr.1.trans hreply

/-- **Suspended hashes do not influence each other.**  Two interleavings, from any two states of the unit
and of the contexts, that give a context the same history let it return the same digest; and when the
history started afresh, that is the SHA-256 of its bytes. -/
theorem suspended_hashes_independent (U : ShaCore) (caps : BitVec 32) {s₁ s₂ : HashSystem ι}
    (hs₁ : s₁.sha.Resting) (hs₂ : s₂.sha.Resting) {ks₁ ks₂ : List (HashCall ι)}
    (hks₁ : ProperRun U caps (fun _ => none) ks₁) (hks₂ : ProperRun U caps (fun _ => none) ks₂)
    {c₁ c₂ : ι} {h : History} (hh₁ : histories U caps (fun _ => none) ks₁ c₁ = some h)
    (hh₂ : histories U caps (fun _ => none) ks₂ c₂ = some h) {k₁ k₂ : HashCall ι}
    (hk₁ : k₁.Finishes c₁) (hk₂ : k₂.Finishes c₂) :
    ∃ out, Runs (do let _ ← runCalls U caps ks₁; k₁.run U caps) s₁ (fun r _ => r = some out) ∧
      Runs (do let _ ← runCalls U caps ks₂; k₂.run U caps) s₂ (fun r _ => r = some out) ∧
      ∀ bytes, h = { History.fresh with bytes := bytes } → out = U.sha256 bytes := by
  refine ⟨h.digest U, runs_calls_finish hs₁ hks₁ hh₁ hk₁, runs_calls_finish hs₂ hks₂ hh₂ hk₂, ?_⟩
  rintro bytes rfl
  exact History.digest_fresh bytes

/-- Two bytes in two pieces, among calls for another context and a clone, and the same two bytes at once
through the PSA entry points. -/
theorem suspended_hashes_independent_two :
    let s : HashSystem Bool := ⟨restingSha, fun _ => Rctx.zero⟩
    let ks₁ : List (HashCall Bool) := [.rinit false, .rupdate false [1], .psaClone false true,
      .rupdate true [9], .other (.sha256Hw [7]), .rupdate false [2], .psaAbort true]
    let ks₂ : List (HashCall Bool) := [.psaSetup true psaAlgSha256, .psaUpdate true [1, 2]]
    ∃ out, Runs (do let _ ← runCalls addCore 1 ks₁; HashCall.run addCore 1 (.rfinal false)) s
        (fun r _ => r = some out) ∧
      Runs (do let _ ← runCalls addCore 1 ks₂; HashCall.run addCore 1 (.psaFinish true 32)) s
        (fun r _ => r = some out) ∧
      out = addCore.sha256 [1, 2] := by
  intro s ks₁ ks₂
  have hks₁ : ProperRun addCore 1 (fun _ => none) ks₁ := by decide
  have hks₂ : ProperRun addCore 1 (fun _ => none) ks₂ := by decide
  have hh₁ : histories addCore 1 (fun _ => none) ks₁ false
      = some { History.fresh with bytes := [1, 2] } := rfl
  have hh₂ : histories addCore 1 (fun _ => none) ks₂ true
      = some { History.fresh with bytes := [1, 2] } := rfl
  have hs : s.sha.Resting := rfl
  have hk₁ : HashCall.Finishes false (.rfinal false) := rfl
  have hk₂ : HashCall.Finishes true (.psaFinish true 32) := ⟨rfl, le_rfl⟩
  obtain ⟨out, hout₁, hout₂, hsha⟩ :=
    suspended_hashes_independent addCore 1 hs hs hks₁ hks₂ hh₁ hh₂ hk₁ hk₂
  exact ⟨out, hout₁, hout₂, hsha [1, 2] rfl⟩

end KlaussRuntime.Crypto
