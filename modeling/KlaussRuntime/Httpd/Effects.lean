import KlaussRuntime.Httpd.Answers

/-!
# Httpd/Effects — what the senders and the receiver do to the connection

A sender touches only the outlet; and on a connection that takes everything, the bytes it adds are
known (`Sends`).  The upload loop takes the next bytes of the stream in the pieces the transport
makes of them and leaves in the file what the file system took of each (`recvBody_eq`).  So an answer
leaves the connection as `Conn.settled` says, and bytes on the way to the peer (`sends_perform`).
-/

namespace KlaussRuntime.Httpd

open Machinery Function

/-! ## Sending -/

/-- `c'` is `c` but for the outlet, which has `bytes` more if no send fails. -/
def Sends (c : Conn) (bytes : List Byte) (c' : Conn) : Prop :=
  ∃ o, c' = { c with outlet := o } ∧
    (c.outlet.Healthy → o.Healthy ∧ o.sent = c.outlet.sent ++ bytes)

variable {c c' c'' : Conn} {bytes bytes' : List Byte}

theorem Sends.refl (c : Conn) : Sends c [] c := ⟨c.outlet, rfl, fun h => ⟨h, by simp⟩⟩

theorem Sends.trans (h : Sends c bytes c') (h' : Sends c' bytes' c'') :
    Sends c (bytes ++ bytes') c'' := by
  obtain ⟨o, rfl, ho⟩ := h
  obtain ⟨o', rfl, ho'⟩ := h'
  refine ⟨o', rfl, fun hc => ⟨(ho' (ho hc).1).1, ?_⟩⟩
  rw [(ho' (ho hc).1).2, (ho hc).2, List.append_assoc]

theorem sends_sendAll (c : Conn) (buf : List Byte) : Sends c buf (c.sendAll buf).2 :=
  ⟨_, rfl, fun h => ⟨h.sendAll buf, Outlet.sendAll_sent (Outlet.sendAll_healthy h buf)⟩⟩

/-- A sender that goes on only after a success sends all when nothing fails. -/
theorem Sends.then_if (buf : List Byte) (h : Sends (c.sendAll buf).2 bytes c') :
    Sends c (buf ++ bytes) (if (c.sendAll buf).1 then c' else (c.sendAll buf).2) := by
  by_cases hok : (c.sendAll buf).1 = true
  · rw [if_pos hok]
    exact (sends_sendAll c buf).trans h
  · rw [if_neg hok]
    exact ⟨_, rfl, fun hc => absurd (Outlet.sendAll_healthy hc buf) hok⟩

/-- The body of a reply as it is sent. -/
def bodyBytes (head : Bool) (body : Option (List Byte)) : List Byte :=
  if head then [] else (body.map cstr).getD []

theorem sends_sendBody (c : Conn) (body : Option (List Byte)) :
    Sends c (bodyBytes c.head body) (sendBody c body) := by
  cases body with
  | none =>
    rw [bodyBytes, Option.map_none, Option.getD_none, ite_self]
    exact Sends.refl c
  | some b =>
    rw [sendBody, bodyBytes]
    split
    · exact Sends.refl c
    · exact sends_sendAll c (cstr b)

/-- The head of a reply as it is sent. -/
def replyHead (keepalive : Bool) (r : Reply) : List Byte :=
  let blen := (r.body.map fun b => (cstr b).length).getD 0 % 2 ^ 32
  cstr (snprintk 200 (headText r.status r.contentType blen keepalive))

theorem sends_httpdSend (c : Conn) (r : Reply) :
    Sends c (replyHead c.keepalive r ++ bodyBytes c.head r.body) (httpdSend c r) :=
  (sends_sendAll c _).trans (sends_sendBody _ r.body)

theorem sends_streamChunks (c : Conn) (chunks : List (List Byte)) :
    Sends c chunks.flatten (streamChunks c chunks) := by
  induction chunks generalizing c with
  | nil => exact Sends.refl c
  | cons chunk chunks ih =>
    rw [List.flatten_cons]
    exact Sends.then_if chunk (ih _)

/-- The head of a file as it is sent. -/
def fileHead (keepalive : Bool) (contentType : List Byte) (size : ℕ) : List Byte :=
  cstr (snprintk 160 (headText (ascii "200 OK") contentType (size % 2 ^ 32) keepalive))

theorem sends_streamFile (c : Conn) (contentType : List Byte) (size : ℕ) (chunks : List (List Byte)) :
    Sends c (fileHead c.keepalive contentType size ++ if c.head then [] else chunks.flatten)
      (streamFile c contentType size chunks) := by
  set hdr := fileHead c.keepalive contentType size
  have heq : streamFile c contentType size chunks = if (c.sendAll hdr).1 && !c.head
      then streamChunks (c.sendAll hdr).2 chunks else (c.sendAll hdr).2 := rfl
  rw [heq]
  cases c.head with
  | true =>
    rw [if_pos rfl, List.append_nil, Bool.not_true, Bool.and_false]
    exact sends_sendAll c hdr
  | false =>
    rw [if_neg Bool.false_ne_true, Bool.not_false, Bool.and_true]
    exact Sends.then_if hdr (sends_streamChunks _ chunks)

theorem sends_sendZeros (fuel : ℕ) (c : Conn) {total : ℕ} (h : total ≤ fuel) :
    Sends c (List.replicate total 0) (sendZeros fuel c total) := by
  induction fuel generalizing c total with
  | zero =>
    obtain rfl := Nat.le_zero.mp h
    exact Sends.refl c
  | succ fuel ih =>
    rw [sendZeros]
    split
    · next hzero =>
      subst hzero
      exact Sends.refl c
    · next hpos =>
      set n := if total < xferSz then total else xferSz with hn
      have hle : n ≤ total ∧ 0 < n := by
        rw [hn, xferSz]
        split <;> omega
      have hsplit : List.replicate total (0 : Byte)
          = List.replicate n 0 ++ List.replicate (total - n) 0 := by
        rw [← List.replicate_add, Nat.add_sub_cancel' hle.1]
      rw [hsplit]
      exact Sends.then_if _ (ih _ (by omega))

/-- The head of the zeros as it is sent. -/
def zeroHead (keepalive : Bool) (total : ℕ) : List Byte :=
  cstr (snprintk 128 (headText (ascii "200 OK") (ascii "application/octet-stream") total keepalive))

theorem sends_serveZero (c : Conn) (total : ℕ) :
    Sends c (zeroHead c.keepalive total ++ List.replicate total 0) (serveZero c total) :=
  Sends.then_if _ (sends_sendZeros total _ le_rfl)

theorem sends_listEntry (url : List Byte) (c : Conn) (ent : Dirent) :
    ∃ bytes, Sends c bytes (listEntry url c ent) := by
  by_cases hdir : ent.isDir = true
  · exact ⟨_, by rw [listEntry, if_pos hdir]; exact sends_sendAll c _⟩
  · exact ⟨_, by rw [listEntry, if_neg hdir]; exact (sends_sendAll c _).trans (sends_sendAll _ _)⟩

theorem sends_listEntries (url : List Byte) (c : Conn) (entries : List Dirent) :
    ∃ bytes, Sends c bytes (entries.foldl (listEntry url) c) := by
  induction entries generalizing c with
  | nil => exact ⟨[], Sends.refl c⟩
  | cons ent entries ih =>
    obtain ⟨xs, hent⟩ := sends_listEntry url c ent
    obtain ⟨ys, hrest⟩ := ih (listEntry url c ent)
    exact ⟨xs ++ ys, hent.trans hrest⟩

theorem sends_parentLink (c : Conn) (url : List Byte) : ∃ bytes, Sends c bytes (parentLink c url) := by
  rw [parentLink]
  split
  · exact ⟨[], Sends.refl c⟩
  · exact ⟨_, sends_sendAll c _⟩

theorem sends_listingBody (c : Conn) (url : List Byte) (entries : List Dirent) :
    ∃ bytes, Sends c bytes (listingBody c url entries) := by
  obtain ⟨xs, hparent⟩ := sends_parentLink _ url
  obtain ⟨ys, hentries⟩ := sends_listEntries url _ entries
  exact ⟨_, (((sends_sendAll c _).trans hparent).trans hentries).trans (sends_sendAll _ _)⟩

theorem sends_streamListing (c : Conn) (url : List Byte) (entries : List Dirent) :
    ∃ bytes, Sends { c with keepalive := false } bytes (streamListing c url entries) := by
  rw [streamListing]
  split
  · exact ⟨_, sends_sendAll _ _⟩
  · obtain ⟨xs, hbody⟩ := sends_listingBody _ url entries
    exact ⟨_, (sends_sendAll _ _).trans hbody⟩

/-! ## Receiving -/

/-- What the file system takes of the pieces of an upload, from write `k` on. -/
def stored (env : Env) : ℕ → List (List Byte) → List Byte
  | _, [] => []
  | k, p :: ps => p.take (env.fs.write k p.length).toNat ++ stored env (k + 1) ps

/-- The stream read on to `i`, and more at the end of a file. -/
def Conn.received (c : Conn) (path bytes : List Byte) (i : Inlet) : Conn :=
  { c with inlet := i, files := update c.files path (c.files path ++ bytes) }

theorem Conn.received_nil (c : Conn) (path : List Byte) (i : Inlet) :
    c.received path [] i = { c with inlet := i } := by
  rw [received, List.append_nil, update_eq_self]

theorem Conn.received_received (c : Conn) (path xs ys : List Byte) (i j : Inlet) :
    (c.received path xs i).received path ys j = c.received path (xs ++ ys) j := by
  simp only [received, update_self, update_idem, List.append_assoc]

theorem recvBody_succ (env : Env) (path : List Byte) (fuel k : ℕ) {n : ℕ} (c : Conn) (hpos : 0 < n) :
    let r := c.inlet.recv (min xferSz n)
    recvBody env path (fuel + 1) k n c
      = if r.1 = [] then ((n : ℤ), c.received path [] r.2)
        else recvBody env path fuel (k + 1) ((n - r.1.length : ℕ) : ℤ)
          (c.received path (r.1.take (env.fs.write k r.1.length).toNat) r.2) := by
  intro r
  have hle : r.1.length ≤ min xferSz n := c.inlet.length_recv_le _
  rw [recvBody, if_neg (by omega), Conn.received_nil, Int.natCast_sub (by omega)]
  rfl

/-- **The receive loop** takes the next bytes of the stream as the transport brings them. -/
theorem recvBody_eq (env : Env) (path : List Byte) (fuel k n : ℕ) (c : Conn) :
    let ps := c.inlet.piecesFrom xferSz fuel n
    recvBody env path fuel k n c
      = ((n : ℤ) - ps.1.flatten.length, c.received path (stored env k ps.1) ps.2) := by
  induction fuel generalizing k n c with
  | zero => simp [recvBody, Inlet.piecesFrom, stored, Conn.received_nil]
  | succ fuel ih =>
    rcases Nat.eq_zero_or_pos n with rfl | hpos
    · simp [recvBody, Inlet.piecesFrom, stored, Conn.received_nil]
    · have hle := c.inlet.length_recv_le (min xferSz n)
      rw [recvBody_succ env path fuel k c hpos, Inlet.piecesFrom, if_neg hpos.ne']
      dsimp only
      split
      · simp [stored]
      · rw [ih, Conn.received_received]
        refine Prod.ext ?_ rfl
        simp only [Conn.received, List.flatten_cons, List.length_append]
        omega

theorem recvBody_remaining (env : Env) (path : List Byte) (k : ℕ) (remaining : ℤ) (c : Conn) :
    let ps := c.inlet.pieces xferSz remaining.toNat
    recvBody env path remaining.toNat k remaining c
      = (remaining - ps.1.flatten.length, c.received path (stored env k ps.1) ps.2) := by
  rcases le_or_gt 0 remaining with hle | hlt
  · have h := recvBody_eq env path remaining.toNat k remaining.toNat c
    rwa [Int.toNat_of_nonneg hle] at h
  · have hzero : remaining.toNat = 0 := Int.toNat_of_nonpos hlt.le
    rw [hzero]
    simp [recvBody, Inlet.pieces, Inlet.piecesFrom, stored, Conn.received_nil]

/-! ## An upload -/

/-- The part of the body in the request buffer comes first. -/
def uploadPieces (body : List Byte) (ps : List (List Byte)) : List (List Byte) :=
  if body = [] then ps else body :: ps

/-- The connection when an upload has come to its end. -/
def Conn.uploaded (env : Env) (c : Conn) (path body : List Byte) (clen : ℤ) : Conn :=
  let ps := c.inlet.pieces xferSz (remainingAfter clen body).toNat
  { c with files := update c.files path [] }.received path
    (stored env 0 (uploadPieces body ps.1)) ps.2

/-- All the bytes that are still expected come. -/
def Completes (i : Inlet) (clen : ℤ) (body : List Byte) : Prop :=
  remainingAfter clen body = (i.pieces xferSz (remainingAfter clen body).toNat).1.flatten.length

instance (i : Inlet) (clen : ℤ) (body : List Byte) : Decidable (Completes i clen body) :=
  inferInstanceAs (Decidable (_ = _))

theorem inlet_writeFirst (env : Env) (c : Conn) (path body : List Byte) :
    (writeFirst env c path body).inlet = c.inlet := by
  rw [writeFirst]
  split <;> rfl

theorem writeFirst_received (env : Env) (c : Conn) (path body : List Byte) (ps : List (List Byte))
    (i : Inlet) :
    (writeFirst env c path body).received path (stored env (if body.length > 0 then 1 else 0) ps) i
      = c.received path (stored env 0 (uploadPieces body ps)) i := by
  cases body with
  | nil => rfl
  | cons b body => exact Conn.received_received c path _ _ c.inlet i

theorem storeUpload_eq (env : Env) (c : Conn) (path body : List Byte) (clen : ℤ) :
    storeUpload env c path body clen
      = if Completes c.inlet clen body then
          sendStatus (c.uploaded env path body clen) (ascii "201 Created") (some (ascii "stored\n"))
        else sendStatus { c.uploaded env path body clen with keepalive := false }
          (ascii "400 Bad Request") (some (ascii "short upload\n")) := by
  have hpair : recvBody env path (remainingAfter clen body).toNat (if body.length > 0 then 1 else 0)
      (remainingAfter clen body)
      (writeFirst env { c with files := update c.files path [] } path body)
        = (remainingAfter clen body
            - (c.inlet.pieces xferSz (remainingAfter clen body).toNat).1.flatten.length,
          c.uploaded env path body clen) := by
    rw [recvBody_remaining, writeFirst_received, inlet_writeFirst]
    rfl
  rw [storeUpload, hpair]
  exact if_congr sub_eq_zero rfl rfl

/-- **What an upload leaves**, whichever way it ends: the stream and the file as its pieces say, and
keep-alive only when all came. -/
theorem storeUpload_sends (env : Env) (c : Conn) (path body : List Byte) (clen : ℤ) :
    ∃ bytes, Sends { c.uploaded env path body clen with
        keepalive := c.keepalive && decide (Completes c.inlet clen body) } bytes
      (storeUpload env c path body clen) := by
  rw [storeUpload_eq]
  split
  · next hall =>
    rw [decide_eq_true hall, Bool.and_true]
    exact ⟨_, sends_httpdSend _ _⟩
  · next hshort =>
    rw [decide_eq_false hshort, Bool.and_false]
    exact ⟨_, sends_httpdSend _ _⟩

/-! ## An answer -/

/-- The connection an answer leaves, but for what was sent. -/
def Conn.settled (env : Env) (req : List Byte) (c : Conn) : Answer → Conn
  | .send head _ | .file head _ _ _ => { c with head := head }
  | .zeros _ => { c with head := false }
  | .listing head _ _ => { c with head := head, keepalive := false }
  | .upload path =>
    { c.uploaded env path (bodyInReq req) (contentLen (cstr req)) with
      head := false
      keepalive := c.keepalive && decide (Completes c.inlet (contentLen (cstr req)) (bodyInReq req)) }

/-- **An answer touches nothing but the outlet**, an upload apart. -/
theorem sends_perform (env : Env) (req : List Byte) (c : Conn) (a : Answer) :
    ∃ bytes, Sends (c.settled env req a) bytes (perform env req c a) := by
  cases a with
  | send head r => exact ⟨_, sends_httpdSend _ r⟩
  | zeros total => exact ⟨_, sends_serveZero _ total⟩
  | file head contentType size chunks => exact ⟨_, sends_streamFile _ contentType size chunks⟩
  | listing head url entries => exact sends_streamListing { c with head := head } url entries
  | upload path => exact storeUpload_sends env { c with head := false } path _ _

theorem Conn.settled_events (env : Env) (req : List Byte) (c : Conn) (a : Answer) :
    (c.settled env req a).events = c.events := by
  cases a <;> rfl

/-- **What a call leaves**: the events of its request, the connection as its answer settles it, and
the verdict on keep-alive. -/
theorem httpdServe_settles (env : Env) {c : Conn} {line : RequestLine} (h : c.line? = some line) :
    ∃ evs bytes, (∀ e ∈ evs, Event.Confined (Reachable line.decoded) e) ∧
      Sends ((c.afterLine line evs).settled env c.request (line.answer env)) bytes
        (httpdServe env c).2 ∧
      (httpdServe env c).1
        = ((c.afterLine line evs).settled env c.request (line.answer env)).keepalive := by
  obtain ⟨evs, hevs, hperform, hkeep⟩ := httpdServe_of_some env h
  obtain ⟨bytes, o, ho, hsent⟩ := sends_perform env c.request (c.afterLine line evs) (line.answer env)
  refine ⟨evs, bytes, hevs, ⟨o, hperform.trans ho, hsent⟩, ?_⟩
  rw [hkeep, hperform, ho]

end KlaussRuntime.Httpd
