import KlaussRuntime.Httpd.Responses

/-!
# Httpd/Uploads — when "stored" means stored

An upload is answered "201 Created" when as many bytes came as were expected (`created_iff`), whatever
`fs_write` returned and wherever the first read ended.  The file holds what was written of the bytes
that were taken for the body; so it is the body iff every write is full, the length was read right and
the first read had the whole head, or the bytes it lacked repeat as the body does
(`httpdServe_stores`).
-/

namespace KlaussRuntime.Httpd

open Machinery Http

/-! ## Writes -/

/-- Every write, from write `k` on, takes its whole piece. -/
def WritesFull (env : Env) : ℕ → List (List Byte) → Prop
  | _, [] => True
  | k, p :: ps => p.length ≤ (env.fs.write k p.length).toNat ∧ WritesFull env (k + 1) ps

variable {env : Env} {c : Conn} {line : RequestLine} {r : Request}

theorem length_stored_le (env : Env) (k : ℕ) (ps : List (List Byte)) :
    (stored env k ps).length ≤ ps.flatten.length := by
  induction ps generalizing k with
  | nil => exact le_rfl
  | cons p ps ih =>
    rw [stored, List.flatten_cons, List.length_append, List.length_append, List.length_take]
    have := ih (k + 1)
    omega

/-- **Full writes store everything.** -/
theorem WritesFull.stored_eq {k : ℕ} {ps : List (List Byte)} (h : WritesFull env k ps) :
    stored env k ps = ps.flatten := by
  induction ps generalizing k with
  | nil => rfl
  | cons p ps ih =>
    rw [stored, List.flatten_cons, ih h.2, List.take_of_length_le h.1]

theorem writesFull_of_length_stored {k : ℕ} {ps : List (List Byte)}
    (h : (stored env k ps).length = ps.flatten.length) : WritesFull env k ps := by
  induction ps generalizing k with
  | nil => trivial
  | cons p ps ih =>
    have hle := length_stored_le env (k + 1) ps
    rw [stored, List.flatten_cons, List.length_append, List.length_append, List.length_take] at h
    exact ⟨by omega, ih (by omega)⟩

/-! ## What is taken for the body -/

/-- The pieces the server takes for the body: what follows the first empty line in the first read, and
what comes after that read. -/
def Conn.offered (c : Conn) : List (List Byte) :=
  let part := bodyInReq c.request
  uploadPieces part
    (c.started.inlet.pieces xferSz (remainingAfter (contentLen (cstr c.request)) part).toNat).1

theorem flatten_uploadPieces (body : List Byte) (ps : List (List Byte)) :
    (uploadPieces body ps).flatten = body ++ ps.flatten := by
  rw [uploadPieces]
  split
  · next hnil => rw [hnil, List.nil_append]
  · rfl

theorem bodyInReq_of_headLines {lines : List (List Byte)} {req : List Byte} (hne : lines ≠ [])
    (hlines : ∀ l ∈ lines, IsLine l) (h : req <+: render lines) : bodyInReq req = [] := by
  obtain ⟨tail, htail⟩ := h
  have hnul : (0 : Byte) ∉ req := fun hmem =>
    zero_not_mem_render hlines (htail ▸ List.mem_append_left _ hmem)
  rw [bodyInReq, cstr_of_not_mem hnul]
  split
  · next i hi =>
    -- the empty line is found where the head ends, which the read cannot be past
    have hend : some i = some ((render lines).length - 4) := by
      rw [← strstr_append hi tail, htail]
      exact strstr_render hne hlines
    have hlen : req.length ≤ (render lines).length := by
      rw [← htail, List.length_append]
      exact Nat.le_add_right _ _
    rw [Option.some.injEq] at hend
    exact List.drop_eq_nil_of_le (by omega)
  · rfl

/-- **What is taken for the body** starts where the first read left the head. -/
theorem offered_append {rest : List Byte} (h : c.inlet.pending = r.bytes ++ rest) :
    ∃ after, c.offered.flatten ++ after = r.head.drop c.request.length ++ (r.body ++ rest) := by
  have hread : c.request ++ c.started.inlet.pending = r.head ++ (r.body ++ rest) := by
    rw [← List.append_assoc]
    exact (c.inlet.recv_append _).trans h
  rw [Conn.offered, flatten_uploadPieces]
  refine ⟨_, (List.append_assoc ..).trans ((congrArg _ (Inlet.flatten_piecesFrom ..)).trans ?_)⟩
  rcases List.append_eq_append_iff.mp hread with ⟨tail, hhead, hpending⟩ | ⟨part, hreq, hbody⟩
  · have hpre : c.request <+: render r.lines := ⟨tail, hhead.symm⟩
    rw [bodyInReq_of_headLines r.lines_ne_nil r.isLine hpre, hhead, List.drop_left, hpending]
    rfl
  · rw [hreq, Request.head, bodyInReq_append r.lines_ne_nil r.isLine, List.drop_eq_nil_of_le (by simp),
      hbody]
    rfl

theorem length_offered (hnonneg : 0 ≤ contentLen (cstr c.request))
    (hall : Completes c.started.inlet (contentLen (cstr c.request)) (bodyInReq c.request)) :
    (c.offered.flatten.length : ℤ) = contentLen (cstr c.request) := by
  have hread : c.request.length ≤ reqMax - 1 := c.inlet.length_recv_le _
  have hpart : (bodyInReq c.request).length < reqMax := by
    rw [bodyInReq]
    split
    · rw [List.length_drop, reqMax] at *
      omega
    · decide
  have hall : remainingAfter _ _ = _ := hall
  have hrem := remainingAfter_eq hnonneg (contentLen_lt _) hpart
  rw [Conn.offered, flatten_uploadPieces, List.length_append]
  omega

/-! ## The verdict and the file -/

/-- The peer was told "201 Created". -/
def Created (o o' : Outlet) : Prop :=
  ∃ bytes, o'.sent = o.sent ++ bytes ∧ ascii "HTTP/1.1 201 Created\r\n" <+: bytes

theorem created_of_sent {o o' : Outlet} (ho : o.sent = [])
    (h : ascii "HTTP/1.1 201 Created\r\n" <+: o'.sent) : Created o o' :=
  ⟨o'.sent, by rw [ho, List.nil_append], h⟩

theorem Sends.created_iff {c' : Conn} {bytes : List Byte} (h : Sends c bytes c')
    (hc : c.outlet.Healthy) :
    Created c.outlet c'.outlet ↔ ascii "HTTP/1.1 201 Created\r\n" <+: bytes := by
  obtain ⟨o, rfl, ho⟩ := h
  constructor
  · rintro ⟨bytes', hsent, hpre⟩
    obtain rfl := List.append_cancel_left ((ho hc).2.symm.trans hsent)
    exact hpre
  · exact fun hpre => ⟨bytes, (ho hc).2, hpre⟩

theorem created_storeUpload_iff (hc : c.outlet.Healthy) (env : Env) (path body : List Byte) (clen : ℤ) :
    Created c.outlet (storeUpload env c path body clen).outlet ↔ Completes c.inlet clen body := by
  have hyes : ∀ keepalive head : Bool, ascii "HTTP/1.1 201 Created\r\n" <+:
      replyHead keepalive (statusReply (ascii "201 Created") (some (ascii "stored\n")))
        ++ bodyBytes head (some (ascii "stored\n")) := by decide +kernel
  have hno : ∀ keepalive head : Bool, ¬ ascii "HTTP/1.1 201 Created\r\n" <+:
      replyHead keepalive (statusReply (ascii "400 Bad Request") (some (ascii "short upload\n")))
        ++ bodyBytes head (some (ascii "short upload\n")) := by decide +kernel
  rw [storeUpload_eq]
  split
  · next hall =>
    exact iff_of_true (((sends_httpdSend (c.uploaded env path body clen) _).created_iff hc).mpr
      (hyes _ _)) hall
  · next hshort =>
    refine iff_of_false (fun hcreated => hno false c.head ?_) hshort
    exact ((sends_httpdSend { c.uploaded env path body clen with keepalive := false } _).created_iff
      hc).mp hcreated

/-- **"201 Created" says that as many bytes came as were expected.** -/
theorem created_iff {path : List Byte} (hline : c.line? = some line)
    (hput : line.answer env = .upload path) (hc : c.outlet.Healthy) :
    Created c.outlet (httpdServe env c).2.outlet ↔
      Completes c.started.inlet (contentLen (cstr c.request)) (bodyInReq c.request) := by
  obtain ⟨evs, -, hperform, -⟩ := httpdServe_of_some env hline
  rw [hperform, hput]
  exact created_storeUpload_iff (c := { c.afterLine line evs with head := false }) hc env path _ _

/-- **The file holds what was written of what was taken for the body.** -/
theorem files_httpdServe {path : List Byte} (hline : c.line? = some line)
    (hput : line.answer env = .upload path) :
    (httpdServe env c).2.files path = stored env 0 c.offered := by
  obtain ⟨evs, -, -, ⟨o, ho, -⟩, -⟩ := httpdServe_settles env hline
  rw [ho, hput]
  simp only [Conn.settled, Conn.uploaded, Conn.received, Function.update_self, List.nil_append]
  rfl

/-- What an upload that completes must meet: the server found the length of the body, every write is
full, and the bytes of the head that the first read lacked do not show in the body. -/
def Faithful (env : Env) (c : Conn) (r : Request) : Prop :=
  Completes c.started.inlet (contentLen (cstr c.request)) (bodyInReq c.request) →
    contentLen (cstr c.request) = r.body.length ∧ WritesFull env 0 c.offered ∧
      (r.head.drop c.request.length ++ r.body).take r.body.length = r.body

/-- As long as the body, what was taken is the start of what the first read left of the request. -/
theorem offered_eq {rest : List Byte} (h : c.inlet.pending = r.bytes ++ rest)
    (hlen : c.offered.flatten.length = r.body.length) :
    c.offered.flatten = (r.head.drop c.request.length ++ r.body).take r.body.length := by
  obtain ⟨after, hafter⟩ := offered_append h
  have hpre := congrArg (List.take r.body.length) hafter
  rwa [← hlen, List.take_left, hlen, ← List.append_assoc, List.take_append_of_le_length] at hpre
  rw [List.length_append]
  exact Nat.le_add_left _ _

/-- **What is reported as stored is stored** by every faithful upload; and, unless the server found a
length larger than the body, by no other. -/
theorem httpdServe_stores (env : Env) (c : Conn) (r : Request) (rest : List Byte)
    (line : RequestLine) (h : c.inlet.pending = r.bytes ++ rest) (hline : c.line? = some line)
    (hput : line.answer env = .upload (pathUnder line.decoded)) (hc : c.outlet.Healthy) :
    (Faithful env c r → Created c.outlet (httpdServe env c).2.outlet →
        (httpdServe env c).2.files (pathUnder line.decoded) = r.body) ∧
      (0 ≤ contentLen (cstr c.request) → contentLen (cstr c.request) ≤ r.body.length →
        (Created c.outlet (httpdServe env c).2.outlet →
          (httpdServe env c).2.files (pathUnder line.decoded) = r.body) → Faithful env c r) := by
  rw [created_iff hline hput hc, files_httpdServe hline hput]
  constructor
  · intro hfaithful hall
    obtain ⟨heq, hfull, htail⟩ := hfaithful hall
    have hlen := length_offered (heq ▸ Int.natCast_nonneg _) hall
    rw [hfull.stored_eq, offered_eq h (by omega), htail]
  · intro hnonneg hle hstores hall
    have hstored := hstores hall
    have hlen := length_offered hnonneg hall
    -- no more is stored than was taken, and no more was taken than the body has
    have hstored_le := length_stored_le env 0 c.offered
    rw [hstored] at hstored_le
    have hfull : WritesFull env 0 c.offered := writesFull_of_length_stored (by rw [hstored]; omega)
    refine ⟨by omega, hfull, ?_⟩
    rw [← offered_eq h (by omega), ← hfull.stored_eq, hstored]

/-- The request line of `putHello`, and what follows it. -/
def putLine (version : List Byte) : RequestLine := ⟨ascii "PUT", ascii "/a", version⟩

/-- The upload of six bytes, of which two come with the head. -/
theorem httpdServe_stores_put :
    let c := Conn.accepted ⟨fun k _ => if k = 0 then 40 else 2, 0, putHello.bytes⟩
    Created c.outlet (httpdServe Env.bare c).2.outlet ∧ Faithful Env.bare c putHello := by
  intro c
  have hcreated : Created c.outlet (httpdServe Env.bare c).2.outlet :=
    created_of_sent rfl (by decide +kernel)
  have hline : c.line? = some (putLine (putHello.bytes.take 40 |>.drop 7)) := by decide +kernel
  have hput : (putLine (putHello.bytes.take 40 |>.drop 7)).answer Env.bare
      = .upload (pathUnder (putLine (putHello.bytes.take 40 |>.drop 7)).decoded) := by decide +kernel
  refine ⟨hcreated, ?_⟩
  exact (httpdServe_stores Env.bare c putHello [] _ (List.append_nil _).symm hline hput
    Outlet.whole_healthy).2 (by decide +kernel) (by decide +kernel) fun _ => by decide +kernel

/-- A card that is full. -/
def Env.full : Env := { Env.bare with fs := { Env.bare.fs with write := fun _ _ => -28 } }

/-- **An upload to a full card is answered "201 Created"** and leaves an empty file. -/
theorem httpdServe_created_not_stored :
    ¬ ∀ (env : Env) (c : Conn) (r : Request) (rest : List Byte) (line : RequestLine),
      c.inlet.pending = r.bytes ++ rest → c.line? = some line →
      line.answer env = .upload (pathUnder line.decoded) → c.outlet.Healthy →
      Created c.outlet (httpdServe env c).2.outlet →
      (httpdServe env c).2.files (pathUnder line.decoded) = r.body := by
  intro hall
  have hstored := hall Env.full (.reading putHello.bytes) putHello [] (putLine (putHello.bytes.drop 7))
    (List.append_nil _).symm (by decide +kernel) (by decide +kernel) Outlet.whole_healthy
    (created_of_sent rfl (by decide +kernel))
  exact absurd hstored (by decide +kernel)

end KlaussRuntime.Httpd
