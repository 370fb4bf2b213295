import KlaussRuntime.Machinery.Bytes

/-!
# Machinery/Transport — the two directions of a stream connection

A connection takes the bytes offered to it a piece at a time and hands the peer's bytes over a piece
at a time; how large each piece is is not the program's choice.  `Outlet` and `Inlet` carry that
choice as a function of the call's number, so a statement about every `Outlet` is one about every
way the transport may split a stream.

* `sendAll` — the loop that offers the rest until everything is taken.  When it succeeds the peer
  has exactly the bytes (`sendAll_sent`); on a connection that never fails it succeeds
  (`sendAll_healthy`).
* `Inlet.recv` — one read; what it returns and what is left make up what was there (`recv_append`).
* `Inlet.pieces` — the reads of a program that wants `k` bytes, up to the first that brings nothing.
-/

namespace Machinery

/-! ## Sending -/

/-- The sending side of a connection: `accept k n` is the result of the `k`-th send call when it
offers `n` bytes — the number of bytes taken, or an error when not positive. -/
structure Outlet where
  accept : ℕ → ℕ → ℤ
  accept_le : ∀ k n, accept k n ≤ n
  calls : ℕ
  sent : List Byte

namespace Outlet

/-- One send call. -/
def send (o : Outlet) (buf : List Byte) : ℤ × Outlet :=
  let r := o.accept o.calls buf.length
  (r, { o with calls := o.calls + 1, sent := o.sent ++ buf.take r.toNat })

/-- The loop of `sendAll`; the fuel is the number of bytes left, and each round takes one. -/
def sendLoop : ℕ → Outlet → List Byte → Bool × Outlet
  | _, o, [] => (true, o)
  | 0, o, _ :: _ => (false, o)
  | n + 1, o, b :: bs =>
    let (r, o') := o.send (b :: bs)
    if r ≤ 0 then (false, o') else sendLoop n o' ((b :: bs).drop r.toNat)

/-- Offer a buffer until all of it is taken; `false` when a call fails first. -/
def sendAll (o : Outlet) (buf : List Byte) : Bool × Outlet := sendLoop buf.length o buf

/-- **No call fails**: a connection that always takes something of what it is offered. -/
def Healthy (o : Outlet) : Prop := ∀ k n, 0 < n → 0 < o.accept k n

/-- A connection that takes every buffer whole. -/
def whole : Outlet := ⟨fun _ n => n, fun _ _ => le_rfl, 0, []⟩

theorem whole_healthy : whole.Healthy := fun _ _ hn => Int.natCast_pos.mpr hn

theorem Healthy.send {o : Outlet} (h : o.Healthy) (buf : List Byte) : (o.send buf).2.Healthy := h

theorem sendLoop_cons (n : ℕ) (o : Outlet) (b : Byte) (bs : List Byte) :
    sendLoop (n + 1) o (b :: bs)
      = if (o.send (b :: bs)).1 ≤ 0 then (false, (o.send (b :: bs)).2)
        else sendLoop n (o.send (b :: bs)).2 ((b :: bs).drop (o.send (b :: bs)).1.toNat) := rfl

/-- A run of the loop that succeeds leaves all of the buffer sent. -/
theorem sendLoop_sent (n : ℕ) (o : Outlet) (buf : List Byte) :
    (sendLoop n o buf).1 = true → (sendLoop n o buf).2.sent = o.sent ++ buf := by
  induction n generalizing o buf with
  | zero => cases buf <;> simp [sendLoop]
  | succ n ih =>
    cases buf with
    | nil => simp [sendLoop]
    | cons b bs =>
      rw [sendLoop_cons]
      by_cases hr : (o.send (b :: bs)).1 ≤ 0
      · simp [hr]
      · rw [if_neg hr]
        intro h
        rw [ih _ _ h, send, List.append_assoc, List.take_append_drop]

theorem sendLoop_accept (n : ℕ) (o : Outlet) (buf : List Byte) :
    (sendLoop n o buf).2.accept = o.accept := by
  induction n generalizing o buf with
  | zero => cases buf <;> rfl
  | succ n ih =>
    cases buf with
    | nil => rfl
    | cons b bs =>
      rw [sendLoop_cons]
      by_cases hr : (o.send (b :: bs)).1 ≤ 0
      · rw [if_pos hr]; rfl
      · rw [if_neg hr, ih]; rfl

theorem sendLoop_healthy (n : ℕ) {o : Outlet} (h : o.Healthy) (buf : List Byte)
    (hn : buf.length ≤ n) : (sendLoop n o buf).1 = true := by
  induction n generalizing o buf with
  | zero =>
    obtain rfl : buf = [] := List.length_eq_zero_iff.mp (by omega)
    rfl
  | succ n ih =>
    cases buf with
    | nil => rfl
    | cons b bs =>
      have hpos : 0 < (o.send (b :: bs)).1 := h _ _ (by simp)
      rw [sendLoop_cons, if_neg (not_le.mpr hpos)]
      refine ih (h.send _) _ ?_
      rw [List.length_drop]
      simp only [List.length_cons] at hn ⊢
      omega

/-- **A send that succeeds delivers exactly its buffer.** -/
theorem sendAll_sent {o : Outlet} {buf : List Byte} (h : (o.sendAll buf).1 = true) :
    (o.sendAll buf).2.sent = o.sent ++ buf := sendLoop_sent _ _ _ h

/-- **On a connection that never fails, every send succeeds.** -/
theorem sendAll_healthy {o : Outlet} (h : o.Healthy) (buf : List Byte) :
    (o.sendAll buf).1 = true := sendLoop_healthy _ h _ le_rfl

theorem Healthy.sendAll {o : Outlet} (h : o.Healthy) (buf : List Byte) :
    (o.sendAll buf).2.Healthy := by
  intro k n hn
  rw [Outlet.sendAll, sendLoop_accept]
  exact h k n hn

end Outlet

/-! ## Receiving -/

/-- The receiving side of a connection: the bytes the peer has sent and the program has not read
yet, and how many of them the `k`-th read delivers into a buffer of a given size.  Zero stands for
every result that is not positive: the peer closed, an error, or a timeout. -/
structure Inlet where
  arrive : ℕ → ℕ → ℕ
  calls : ℕ
  pending : List Byte

namespace Inlet

/-- One read into a buffer of `room` bytes; the empty string when nothing is delivered. -/
def recv (i : Inlet) (room : ℕ) : List Byte × Inlet :=
  let n := min (i.arrive i.calls room) room
  (i.pending.take n, { i with calls := i.calls + 1, pending := i.pending.drop n })

/-- **A read splits the stream**: what it returns and what it leaves make up what was there. -/
theorem recv_append (i : Inlet) (room : ℕ) :
    (i.recv room).1 ++ (i.recv room).2.pending = i.pending := List.take_append_drop _ _

theorem length_recv_le (i : Inlet) (room : ℕ) : (i.recv room).1.length ≤ room := by
  simp only [recv, List.length_take]
  omega

/-- The pieces in which reads of at most `room` bytes bring the next `k` bytes, up to the first read
that brings nothing; each round brings one, so `k` bounds their number. -/
def piecesFrom (room : ℕ) : ℕ → Inlet → ℕ → List (List Byte) × Inlet
  | 0, i, _ => ([], i)
  | fuel + 1, i, k =>
    if k = 0 then ([], i)
    else
      let r := i.recv (min room k)
      if r.1 = [] then ([], r.2)
      else
        let rest := piecesFrom room fuel r.2 (k - r.1.length)
        (r.1 :: rest.1, rest.2)

def pieces (room : ℕ) (i : Inlet) (k : ℕ) : List (List Byte) × Inlet := piecesFrom room k i k

/-- **The pieces are the stream**, in order and without a gap. -/
theorem flatten_piecesFrom (room fuel : ℕ) (i : Inlet) (k : ℕ) :
    (piecesFrom room fuel i k).1.flatten ++ (piecesFrom room fuel i k).2.pending = i.pending := by
  fun_induction piecesFrom room fuel i k with
  | case1 => rfl
  | case2 => rfl
  | case3 fuel i k hk r hr =>
    rw [← i.recv_append (min room k), hr]
    rfl
  | case4 fuel i k hk r hr rest ih =>
    rw [← i.recv_append (min room k), List.flatten_cons, List.append_assoc, ih]

end Inlet

end Machinery
