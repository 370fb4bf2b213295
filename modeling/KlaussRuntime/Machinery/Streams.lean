import KlaussRuntime.Machinery.Runs
import KlaussRuntime.Machinery.Transport

/-!
# Machinery/Streams — programs that read a stream

`recvAll n` reads until `n` bytes are there, over as many reads as the connection makes of them.
`Takes p bs a` says that `p` takes exactly the bytes `bs` off a stream that begins with them and
returns `a`, however the reads split the stream.  The rules compose: a sequence takes one string after
the other (`Takes.bind`), so what a parser takes is read off its text.
-/

namespace Machinery

namespace Inlet

/-- **Bytes on their way arrive**: a read brings nothing only when the stream has ended. -/
def Healthy (i : Inlet) : Prop := ∀ k n, 0 < n → 0 < i.arrive k n

variable {i : Inlet}

theorem arrive_piecesFrom (room fuel : ℕ) (i : Inlet) (k : ℕ) :
    (piecesFrom room fuel i k).2.arrive = i.arrive := by
  fun_induction piecesFrom room fuel i k with
  | case1 => rfl
  | case2 => rfl
  | case3 => rfl
  | case4 fuel i k hk r hr rest ih => exact ih

/-- **A healthy stream that is long enough brings all bytes.** -/
theorem Healthy.length_piecesFrom {room : ℕ} (hroom : 0 < room) (fuel : ℕ) {i : Inlet}
    (hi : i.Healthy) {k : ℕ} (hfuel : k ≤ fuel) (hk : k ≤ i.pending.length) :
    (piecesFrom room fuel i k).1.flatten.length = k := by
  fun_induction piecesFrom room fuel i k with
  | case1 i k => simp; omega
  | case2 fuel i => rfl
  | case3 fuel i k hk0 r hr =>
    have harrive := hi i.calls (min room k) (by omega)
    have hlen := congrArg List.length hr
    simp only [r, recv, List.length_take, List.length_nil] at hlen
    omega
  | case4 fuel i k hk0 r hr rest ih =>
    have hle : r.1.length ≤ min room k := i.length_recv_le (min room k)
    have hsplit : r.1.length + r.2.pending.length = i.pending.length := by
      rw [← List.length_append]
      exact congrArg List.length (i.recv_append (min room k))
    have hpos : 0 < r.1.length := List.length_pos_iff.mpr hr
    have hrest : rest.1.flatten.length = k - r.1.length := ih hi (by omega) (by omega)
    rw [List.flatten_cons, List.length_append, hrest]
    omega

end Inlet

variable {α β : Type}

/-- Read until `n` bytes are there. -/
def recvAll (n : ℕ) : Prog Inlet (List Byte) := fun i =>
  let (ps, i') := i.pieces n n
  if ps.flatten.length = n then some (ps.flatten, i') else none

/-- The program takes exactly `bs` and returns `a`. -/
def Takes (p : Prog Inlet α) (bs : List Byte) (a : α) : Prop :=
  ∀ ⦃i : Inlet⦄ ⦃rest : List Byte⦄, i.Healthy → i.pending = bs ++ rest →
    ∃ i', p.run i = some (a, i') ∧ i'.Healthy ∧ i'.pending = rest

namespace Takes

variable {p : Prog Inlet α} {f : α → Prog Inlet β} {bs cs : List Byte} {a : α} {b : β}

theorem pure (a : α) : Takes (Pure.pure a) [] a := fun i _ hi hpending => ⟨i, rfl, hi, hpending⟩

/-- **Sequencing**: one string after the other. -/
theorem bind (hp : Takes p bs a) (hf : Takes (f a) cs b) : Takes (p >>= f) (bs ++ cs) b := by
  intro i rest hi hpending
  obtain ⟨i₁, hrun₁, hi₁, hpending₁⟩ := hp hi (hpending.trans (List.append_assoc ..))
  obtain ⟨i₂, hrun₂, hi₂, hpending₂⟩ := hf hi₁ hpending₁
  exact ⟨i₂, by rw [StateT.run_bind, hrun₁]; exact hrun₂, hi₂, hpending₂⟩

/-- The last part of a program returns what it makes of the bytes. -/
theorem bind_pure {g : α → β} (hp : Takes p bs a) (hb : g a = b) :
    Takes (p >>= fun a => Pure.pure (g a)) bs b := by
  have h : Takes (p >>= fun a => Pure.pure (g a)) (bs ++ []) (g a) := hp.bind (Takes.pure (g a))
  rwa [List.append_nil, hb] at h

/-- **A counted loop takes a string per round.** -/
theorem loop {ι : Type} {body : ℕ → β → Prog Inlet β} (bytes : ι → List Byte) (upTo : List ι → β)
    (hbody : ∀ done x, Takes (body done.length (upTo done)) (bytes x) (upTo (done ++ [x])))
    (xs : List ι) :
    Takes (Machinery.loop body xs.length (upTo [])) (xs.flatMap bytes) (upTo xs) := by
  induction xs using List.reverseRecOn with
  | nil => exact Takes.pure _
  | append_singleton xs x ih =>
    rw [List.length_append, List.flatMap_append, List.flatMap_singleton]
    exact ih.bind (hbody xs x)

end Takes

/-- **`recvAll` takes the next bytes.** -/
theorem takes_recvAll {n : ℕ} {bs : List Byte} (h : bs.length = n) : Takes (recvAll n) bs bs := by
  intro i rest hi hpending
  have hsplit := i.flatten_piecesFrom n n n
  have hlen : (i.pieces n n).1.flatten.length = n := by
    rcases Nat.eq_zero_or_pos n with rfl | hpos
    · rfl
    · refine hi.length_piecesFrom hpos n le_rfl ?_
      rw [hpending, List.length_append, h]
      omega
  rw [hpending] at hsplit
  obtain ⟨hbytes, hrest⟩ := List.append_inj hsplit (hlen.trans h.symm)
  refine ⟨(i.pieces n n).2, ?_, ?_, hrest⟩
  · change (if (i.pieces n n).1.flatten.length = n then some ((i.pieces n n).1.flatten, (i.pieces n n).2)
      else none) = _
    rw [if_pos hlen]
    exact congrArg (fun bs => some (bs, (i.pieces n n).2)) hbytes
  · intro k m hm
    rw [Inlet.pieces, Inlet.arrive_piecesFrom]
    exact hi k m hm

end Machinery
