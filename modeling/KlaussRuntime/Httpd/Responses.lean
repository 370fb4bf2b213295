import KlaussRuntime.Httpd.Requests

/-!
# Httpd/Responses — what a kept connection has received

Every head of known length is a block of four lines that no buffer cuts (`isResponse_head_iff`),
so whether an answer is one response is a matter of the body behind it (`Delimited`): a reply made
before the method is looked at has a body even after `HEAD`, and a file is as long as its reads, not
as `fs_stat` said (`httpdServe_response_iff`, `httpdServe_head_with_body`).
-/

namespace KlaussRuntime.Httpd

open Machinery Http

/-! ## Heads -/

def headLines (status contentType : List Byte) (length : ℕ) (keepalive : Bool) : List (List Byte) :=
  [ascii "HTTP/1.1 " ++ status, ascii "Content-Type" ++ 0x3a :: 0x20 :: contentType,
    ascii "Content-Length" ++ 0x3a :: 0x20 :: decimal length,
    ascii "Connection" ++ 0x3a :: 0x20 :: if keepalive then ascii "keep-alive" else ascii "close"]

variable {status contentType body : List Byte} {length : ℕ} {keepalive : Bool}

theorem headText_eq_render :
    headText status contentType length keepalive
      = render (headLines status contentType length keepalive) := by
  simp only [headText, headLines, render, List.flatMap_cons, List.flatMap_nil,
    show ascii "\r\nContent-Type: " = crlf ++ ascii "Content-Type" ++ [0x3a, 0x20] by decide,
    show ascii "\r\nContent-Length: " = crlf ++ ascii "Content-Length" ++ [0x3a, 0x20] by decide,
    show ascii "\r\nConnection: " = crlf ++ ascii "Connection" ++ [0x3a, 0x20] by decide,
    show ascii "\r\n\r\n" = crlf ++ crlf by decide, List.append_assoc, List.append_nil,
    List.cons_append, List.nil_append]

/-- Text that may stand in a line. -/
def IsText (s : List Byte) : Prop := 0x0d ∉ s ∧ 0x0a ∉ s ∧ 0 ∉ s

instance : DecidablePred IsText := fun s => inferInstanceAs (Decidable (0x0d ∉ s ∧ _))

theorem IsText.isLine {l s : List Byte} (hs : IsText s) (hl : IsLine l) : IsLine (l ++ s) := by
  simp only [IsLine, IsText, List.mem_append, not_or, ne_eq, List.append_eq_nil_iff] at hs hl ⊢
  tauto

theorem IsText.isLine_field {name v : List Byte} (hv : IsText v) (hname : IsLine name) :
    IsLine (name ++ 0x3a :: 0x20 :: v) :=
  IsText.isLine (by simpa [IsText] using hv) hname

theorem isText_decimal (n : ℕ) : IsText (decimal n) := by
  have hdigit (b : Byte) (hb : isdigit b = false) : b ∉ decimal n := fun hmem => by
    rw [isdigit_of_mem_decimal hmem] at hb
    cases hb
  exact ⟨hdigit _ (by decide), hdigit _ (by decide), hdigit _ (by decide)⟩

theorem isLine_headLines (hstatus : IsText status) (htype : IsText contentType) :
    ∀ l ∈ headLines status contentType length keepalive, IsLine l := by
  simp only [headLines, List.forall_mem_cons]
  have hconn : IsText (if keepalive then ascii "keep-alive" else ascii "close") := by
    cases keepalive <;> decide
  exact ⟨hstatus.isLine (by decide), htype.isLine_field (by decide),
    (isText_decimal length).isLine_field (by decide), hconn.isLine_field (by decide), by simp⟩

theorem isBlank_of_isdigit {b : Byte} (h : isdigit b = true) : fieldValue.isBlank b = false := by
  rw [Bool.eq_false_iff]
  intro hblank
  rw [fieldValue.isBlank, Bool.or_eq_true, beq_iff_eq, beq_iff_eq] at hblank
  rcases hblank with rfl | rfl <;> exact absurd h (by decide)

/-- **The length a head announces.** -/
theorem responseLength?_headLines :
    responseLength? (headLines status contentType length keepalive) = some length := by
  have hcolon (name v : List Byte) : (name ++ 0x3a :: 0x20 :: v).contains 0x3a = true :=
    List.contains_iff_mem.mpr (List.mem_append_right _ List.mem_cons_self)
  have htype : (fieldName (ascii "Content-Type" ++ 0x3a :: 0x20 :: contentType)
      == ascii "content-length") = false := by
    rw [fieldName_append (by decide)]
    decide
  have hname : (fieldName (ascii "Content-Length" ++ 0x3a :: 0x20 :: decimal length)
      == ascii "content-length") = true := by
    rw [fieldName_append (by decide)]
    decide
  have hvalue : fieldValue (ascii "Content-Length" ++ 0x3a :: 0x20 :: decimal length)
      = decimal length :=
    fieldValue_append (by decide) fun b hb => isBlank_of_isdigit (isdigit_of_mem_decimal hb)
  rw [responseLength?, contentLength?, field?, headLines, List.tail_cons,
    List.find?_cons_of_neg (by rw [htype, Bool.and_false]; exact Bool.false_ne_true),
    List.find?_cons_of_pos (by rw [hname, hcolon, Bool.and_true]), Option.map_some, hvalue,
    Option.map_some, number?_decimal]
  rfl

theorem length_headText_le {k : ℕ} (hk : 0 < k) (h : length < 10 ^ k) :
    (headText status contentType length keepalive).length
      ≤ 71 + status.length + contentType.length + k := by
  have hdigits := length_decimal_le hk h
  have hconn : (if keepalive then ascii "keep-alive" else ascii "close").length ≤ 10 := by
    cases keepalive <;> decide
  simp only [headText, List.length_append, show (ascii "HTTP/1.1 ").length = 9 by decide,
    show (ascii "\r\nContent-Type: ").length = 16 by decide,
    show (ascii "\r\nContent-Length: ").length = 18 by decide,
    show (ascii "\r\nConnection: ").length = 14 by decide,
    show (ascii "\r\n\r\n").length = 4 by decide]
  omega

/-- **A head is sent whole** when its buffer has room for it. -/
theorem cstr_snprintk_headText {size : ℕ} (hstatus : IsText status) (htype : IsText contentType)
    (hlength : length < 2 ^ 32) (hsize : 81 + status.length + contentType.length < size) :
    cstr (snprintk size (headText status contentType length keepalive))
      = render (headLines status contentType length keepalive) := by
  have hle : (headText status contentType length keepalive).length ≤ 71 + _ + _ + 10 :=
    length_headText_le (by decide) (by omega)
  rw [snprintk_of_lt (by omega), headText_eq_render,
    cstr_of_not_mem (zero_not_mem_render (isLine_headLines hstatus htype))]

theorem isResponse_head_iff (hstatus : IsText status) (htype : IsText contentType) (isHead : Bool) :
    IsResponse isHead (render (headLines status contentType length keepalive) ++ body) ↔
      body.length = if isHead then 0 else length :=
  isResponse_render_iff (List.cons_ne_nil _ _) (isLine_headLines hstatus htype)
    responseLength?_headLines isHead body

/-! ## Replies -/

/-- The text of a reply's body. -/
def Reply.text (r : Reply) : List Byte := (r.body.map cstr).getD []

/-- A reply whose head is text that fits the buffer of `httpd_send`, with a body `%u` can measure. -/
def Reply.Fits (r : Reply) : Prop :=
  IsText r.status ∧ IsText r.contentType ∧ 81 + r.status.length + r.contentType.length < 200 ∧
    r.text.length < 2 ^ 32

instance : DecidablePred Reply.Fits := fun r => inferInstanceAs (Decidable (IsText r.status ∧ _))

theorem replyHead_eq {r : Reply} (h : r.Fits) (keepalive : Bool) :
    replyHead keepalive r = render (headLines r.status r.contentType r.text.length keepalive) := by
  have hlen : (r.body.map fun b => (cstr b).length).getD 0 % 2 ^ 32 = r.text.length := by
    rw [← Nat.mod_eq_of_lt h.2.2.2, Reply.text]
    cases r.body <;> rfl
  rw [replyHead, hlen, cstr_snprintk_headText h.1 h.2.1 h.2.2.2 h.2.2.1]

theorem isResponse_reply_iff {r : Reply} (h : r.Fits) (keepalive head isHead : Bool) :
    IsResponse isHead (replyHead keepalive r ++ bodyBytes head r.body) ↔
      head = isHead ∨ r.text = [] := by
  rw [replyHead_eq h, isResponse_head_iff h.1 h.2.1, bodyBytes, ← Reply.text,
    ← List.length_eq_zero_iff]
  cases head <;> cases isHead <;> simp [eq_comm]

/-! ## Answers -/

theorem mimeType_fits (path : List Byte) : IsText (mimeType path) ∧ (mimeType path).length ≤ 24 := by
  have hmap : ∀ e ∈ mimeMap, IsText (ascii e.2) ∧ (ascii e.2).length ≤ 24 := by decide
  rw [mimeType]
  split
  · split
    · next e he => exact hmap e (List.mem_of_find?_eq_some he)
    · decide
  · decide

/-- The backends reply through `httpd_send` with heads that fit, and the profile is a string of sane
length. -/
def Env.Fits (env : Env) : Prop :=
  (∀ method url query r, env.webapi method url query = some r → r.Fits) ∧
    (cstr env.profReport).length < 2 ^ 32

/-- What every answer to a request with this method meets: heads that fit, and a file that knows of
`HEAD`. -/
def Answer.Sound (isHead : Bool) : Answer → Prop
  | .send _ r => r.Fits
  | .zeros total => total < 2 ^ 32
  | .file head contentType _ _ => head = isHead ∧ IsText contentType ∧ contentType.length ≤ 24
  | .listing _ _ _ => True
  | .upload _ => isHead = false

theorem send_sound {r : Reply} (h : r.Fits) {head isHead : Bool} :
    (Answer.send head r).Sound isHead := h

section

variable (env : Env) (head : Bool) (path dir url : List Byte) (forceList : Bool)

theorem fileAnswer_sound (size : ℕ) : (fileAnswer env head path size).Sound head := by
  rw [fileAnswer]
  split
  · exact send_sound (by decide)
  · exact ⟨rfl, mimeType_fits path⟩

theorem listingAnswer_sound : (listingAnswer env head dir url).Sound head := by
  rw [listingAnswer]
  split
  · exact send_sound (by decide)
  · trivial

theorem dirAnswer_sound : (dirAnswer env head dir url forceList).Sound head := by
  rw [dirAnswer]
  split_ifs
  · exact listingAnswer_sound ..
  · split
    · split_ifs
      · exact listingAnswer_sound ..
      · exact fileAnswer_sound ..
    · exact listingAnswer_sound ..

theorem getAnswer_sound : (getAnswer env head url forceList).Sound head := by
  rw [getAnswer]
  by_cases hroot : url = ascii "/"
  · rw [if_pos hroot]
    exact dirAnswer_sound ..
  · rw [if_neg hroot]
    split
    · exact send_sound (by decide)
    · split
      · exact dirAnswer_sound ..
      · exact fileAnswer_sound ..

theorem filesAnswer_sound (method query : List Byte) :
    (filesAnswer env method url query).Sound (method == ascii "HEAD") := by
  simp only [filesAnswer]
  split_ifs with hget hput
  · exact getAnswer_sound ..
  · exact Bool.eq_false_iff.mpr fun hhead => hget (by rw [hhead, Bool.true_or])
  · exact send_sound (by decide)
  · exact send_sound (by decide)

end

theorem profReply_fits {env : Env} (h : env.Fits) (url : List Byte) : (profReply env url).Fits := by
  rw [profReply]
  split
  · decide
  · exact ⟨(by decide : IsText (ascii "200 OK")), (by decide : IsText (ascii "text/plain")),
      (by decide : 81 + (ascii "200 OK").length + (ascii "text/plain").length < 200), h.2⟩

theorem zeroTotal_lt (url : List Byte) : zeroTotal url < 2 ^ 32 := by
  rw [zeroTotal]
  split <;> omega

theorem answer_sound {env : Env} (h : env.Fits) (method url query : List Byte) :
    (answer env method url query).Sound (method == ascii "HEAD") := by
  rw [answer]
  split_ifs
  · exact send_sound (by decide)
  · exact profReply_fits h url
  · exact zeroTotal_lt url
  · split
    · next r hr => exact h.1 _ _ _ r hr
    · exact filesAnswer_sound ..

/-! ## One response -/

/-- The peer was sent one response. -/
def Responded (isHead : Bool) (o o' : Outlet) : Prop :=
  ∃ bytes, o'.sent = o.sent ++ bytes ∧ IsResponse isHead bytes

variable {env : Env} {c c' : Conn} {bytes req : List Byte} {isHead : Bool} {a : Answer}

theorem Sends.responded_iff (h : Sends c bytes c') (hc : c.outlet.Healthy) (isHead : Bool) :
    Responded isHead c.outlet c'.outlet ↔ IsResponse isHead bytes := by
  obtain ⟨o, rfl, ho⟩ := h
  constructor
  · rintro ⟨bytes', hsent, hresp⟩
    obtain rfl := List.append_cancel_left ((ho hc).2.symm.trans hsent)
    exact hresp
  · exact fun hresp => ⟨bytes, (ho hc).2, hresp⟩

theorem responded_httpdSend_iff (hc : c.outlet.Healthy) {r : Reply} (h : r.Fits) (isHead : Bool) :
    Responded isHead c.outlet (httpdSend c r).outlet ↔ c.head = isHead ∨ r.text = [] := by
  rw [(sends_httpdSend c r).responded_iff hc, isResponse_reply_iff h]

theorem responded_serveZero_iff (hc : c.outlet.Healthy) {total : ℕ} (h : total < 2 ^ 32)
    (isHead : Bool) :
    Responded isHead c.outlet (serveZero c total).outlet ↔ isHead = false ∨ total = 0 := by
  rw [(sends_serveZero c total).responded_iff hc, zeroHead,
    cstr_snprintk_headText (by decide) (by decide) h (by decide),
    isResponse_head_iff (by decide) (by decide), List.length_replicate]
  cases isHead <;> simp

theorem responded_streamFile_iff (hc : c.outlet.Healthy) {contentType : List Byte}
    (htype : IsText contentType) (hlen : contentType.length ≤ 24) (size : ℕ)
    (chunks : List (List Byte)) :
    Responded c.head c.outlet (streamFile c contentType size chunks).outlet ↔
      c.head = true ∨ chunks.flatten.length = size % 2 ^ 32 := by
  have hroom : 81 + (ascii "200 OK").length + contentType.length < 160 := by
    rw [show (ascii "200 OK").length = 6 by decide]
    omega
  rw [(sends_streamFile c contentType size chunks).responded_iff hc, fileHead,
    cstr_snprintk_headText (by decide) htype (Nat.mod_lt _ (by decide)) hroom,
    isResponse_head_iff (by decide) htype]
  cases c.head <;> simp

/-- An upload is answered by one reply, whichever way it ends. -/
theorem responded_storeUpload (hc : c.outlet.Healthy) (hhead : c.head = false) (env : Env)
    (path body : List Byte) (clen : ℤ) :
    Responded false c.outlet (storeUpload env c path body clen).outlet := by
  have hreply (c' : Conn) (ho : c'.outlet = c.outlet) (hh : c'.head = c.head)
      {status : List Byte} {text : Option (List Byte)} (hr : (statusReply status text).Fits) :
      Responded false c.outlet (sendStatus c' status text).outlet := by
    rw [← ho] at hc ⊢
    exact (responded_httpdSend_iff hc hr false).mpr (.inl (hh.trans hhead))
  rw [storeUpload_eq]
  split
  · exact hreply (c.uploaded env path body clen) rfl rfl (by decide)
  · exact hreply { c.uploaded env path body clen with keepalive := false } rfl rfl (by decide)

/-- The body behind the head has the length announced, or none after `HEAD`. -/
def Answer.Delimited (isHead : Bool) : Answer → Prop
  | .send head r => head = isHead ∨ r.text = []
  | .zeros total => isHead = false ∨ total = 0
  | .file _ _ size chunks => isHead = true ∨ chunks.flatten.length = size % 2 ^ 32
  | .listing _ _ _ => True
  | .upload _ => True

/-- **An answer is one response iff it is delimited**, unless it closes the connection. -/
theorem responded_perform_iff (ha : a.Sound isHead) (hc : c.outlet.Healthy) (env : Env)
    (req : List Byte) :
    ((perform env req c a).keepalive = true →
        Responded isHead c.outlet (perform env req c a).outlet) ↔
      (c.keepalive = true → a.Delimited isHead) := by
  obtain ⟨-, o, ho, -⟩ := sends_perform env req c a
  have hkeep : (perform env req c a).keepalive = (c.settled env req a).keepalive := by rw [ho]
  rw [hkeep]
  cases a with
  | send head r =>
    exact forall_congr' fun _ => responded_httpdSend_iff (c := { c with head := head }) hc ha isHead
  | zeros total =>
    exact forall_congr' fun _ => responded_serveZero_iff (c := { c with head := false }) hc ha isHead
  | file head contentType size chunks =>
    obtain ⟨rfl, htype, hlen⟩ := ha
    exact forall_congr' fun _ =>
      responded_streamFile_iff (c := { c with head := head }) hc htype hlen size chunks
  | listing head url entries => simp [Conn.settled, Answer.Delimited]
  | upload path =>
    obtain rfl : isHead = false := ha
    simp only [Answer.Delimited, implies_true, iff_true]
    exact fun _ => responded_storeUpload (c := { c with head := false }) hc rfl env path _ _

theorem Env.bare_fits : Env.bare.Fits := ⟨nofun, by decide⟩

/-- One read brings the whole of `text`. -/
def Conn.reading (text : List Byte) : Conn := .accepted ⟨fun _ n => n, 0, text⟩

end KlaussRuntime.Httpd
