import KlaussRuntime.Httpd.Server

/-!
# Httpd/Answers — what the server decides, apart from how it carries it out

Which way a request is answered depends on its method, path and query and on what the environment
says, never on the connection: `answer` is that decision, with every path written out in full.
`httpdServe` reads, decides and performs the answer (`httpdServe_eq`); on the way it hands paths to
the file system and fills its buffers, and every such event stays inside the document root and inside
the buffer (`Event.Confined`).
-/

namespace KlaussRuntime.Httpd

open Machinery

/-! ## The decision -/

inductive Answer where
  | send (head : Bool) (r : Reply)
  | zeros (total : ℕ)
  | file (head : Bool) (contentType : List Byte) (size : ℕ) (chunks : List (List Byte))
  | listing (head : Bool) (url : List Byte) (entries : List Dirent)
  | upload (path : List Byte)
deriving DecidableEq

variable (env : Env)

def fileAnswer (head : Bool) (path : List Byte) (size : ℕ) : Answer :=
  match env.fs.openRead path with
  | none => .send head (statusReply (ascii "404 Not Found") (some (ascii "cannot open file\n")))
  | some chunks => .file head (mimeType path) size chunks

def listingAnswer (head : Bool) (dir url : List Byte) : Answer :=
  match env.fs.openDir dir with
  | none => .send head (statusReply (ascii "404 Not Found") (some (ascii "no such directory\n")))
  | some entries => .listing head url entries

def dirAnswer (head : Bool) (dir url : List Byte) (forceList : Bool) : Answer :=
  if forceList then listingAnswer env head dir url
  else
    match env.fs.stat (dir ++ ascii "/index.html") with
    | some ent =>
      if ent.isDir then listingAnswer env head dir url
      else fileAnswer env head (dir ++ ascii "/index.html") ent.size
    | none => listingAnswer env head dir url

/-- The path of the file a URL names. -/
def pathUnder (url : List Byte) : List Byte := dropSlash (docRoot ++ url)

def getAnswer (head : Bool) (url : List Byte) (forceList : Bool) : Answer :=
  if url = ascii "/" then dirAnswer env head docRoot (ascii "/") forceList
  else
    match env.fs.stat (pathUnder url) with
    | none => .send head (statusReply (ascii "404 Not Found") (some (ascii "not found\n")))
    | some ent =>
      if ent.isDir then
        dirAnswer env head (pathUnder url)
          (url ++ if url.getLast? = some 0x2f then [] else ascii "/") forceList
      else fileAnswer env head (pathUnder url) ent.size

def filesAnswer (method url query : List Byte) : Answer :=
  let head := method == ascii "HEAD"
  if head || method == ascii "GET" then
    getAnswer env head url (strstr (ascii "list") query).isSome
  else if method == ascii "PUT" then
    if env.fs.openWrite (pathUnder url) then .upload (pathUnder url)
    else .send head (statusReply (ascii "500 Internal Server Error")
      (some (ascii "cannot create file\n")))
  else .send head (statusReply (ascii "405 Method Not Allowed") (some (ascii "GET/HEAD/PUT only\n")))

def answer (method url query : List Byte) : Answer :=
  if badPath url then
    .send false (statusReply (ascii "403 Forbidden") (some (ascii "bad path\n")))
  else if env.sshServer && isProf url then .send false (profReply env url)
  else if (ascii "/__zero/").isPrefixOf url then .zeros (zeroTotal url)
  else
    match env.webapi method url query with
    | some r => .send false r
    | none => filesAnswer env method url query

/-- Carrying an answer out. -/
def perform (req : List Byte) (c : Conn) : Answer → Conn
  | .send head r => httpdSend { c with head := head } r
  | .zeros total => serveZero { c with head := false } total
  | .file head contentType size chunks => streamFile { c with head := head } contentType size chunks
  | .listing head url entries => streamListing { c with head := head } url entries
  | .upload path =>
    storeUpload env { c with head := false } path (bodyInReq req) (contentLen (cstr req))

/-! ## The events -/

/-- A path satisfies `P`; what is written to a buffer fits. -/
def Event.Confined (P : List Byte → Prop) : Event → Prop
  | .fill b bytes => bytes.length ≤ b.size
  | .stat p | .openFile p | .openDir p => P p

variable {env} {req : List Byte} {P : List Byte → Prop} {c c' : Conn} {a : Answer}

/-- From `c`, after events confined to `P`, the answer is carried out. -/
def Performs (env : Env) (req : List Byte) (P : List Byte → Prop) (c c' : Conn) (a : Answer) : Prop :=
  ∃ evs, (∀ e ∈ evs, Event.Confined P e) ∧
    c' = perform env req { c with events := c.events ++ evs } a

theorem Performs.of_eq (h : c' = perform env req c a) : Performs env req P c c' a :=
  ⟨[], nofun, by rw [List.append_nil, h]⟩

theorem Performs.log {e : Event} (he : e.Confined P) (h : Performs env req P (c.log e) c' a) :
    Performs env req P c c' a := by
  obtain ⟨evs, hevs, rfl⟩ := h
  refine ⟨e :: evs, List.forall_mem_cons.mpr ⟨he, hevs⟩, ?_⟩
  simp [Conn.log]

theorem Performs.of_head {h : Bool} (hp : Performs env req P { c with head := h } c' a) :
    Performs env req P c c' a := by
  obtain ⟨evs, hevs, rfl⟩ := hp
  refine ⟨evs, hevs, ?_⟩
  cases a <;> rfl

/-! ## Refinement -/

variable {path dir url query method : List Byte} {size : ℕ} {forceList : Bool}

theorem performs_sendFile (hpath : P path) :
    Performs env req P c (sendFile env c path size) (fileAnswer env c.head path size) := by
  refine Performs.log (e := .openFile path) hpath ?_
  simp only [sendFile, fileAnswer]
  cases env.fs.openRead path <;> exact .of_eq rfl

theorem performs_sendListing (hdir : P dir) :
    Performs env req P c (sendListing env c dir url) (listingAnswer env c.head dir url) := by
  refine Performs.log (e := .openDir dir) hdir ?_
  simp only [sendListing, listingAnswer]
  cases env.fs.openDir dir <;> exact .of_eq rfl

theorem performs_serveDir (hdir : P dir) (hidx : P (dir ++ ascii "/index.html"))
    (hlen : dir.length ≤ docRoot.length + urlMax) :
    Performs env req P c (serveDir env c dir url forceList)
      (dirAnswer env c.head dir url forceList) := by
  have hfits : (dir ++ ascii "/index.html").length < Buffer.idx.size := by
    rw [List.length_append, show (ascii "/index.html").length = 11 by decide, Buffer.size]
    omega
  simp only [serveDir, dirAnswer, snprintk_of_lt hfits]
  split
  · exact performs_sendListing hdir
  · refine Performs.log (e := .fill .idx (dir ++ ascii "/index.html" ++ [0]))
      (by rw [Event.Confined, List.length_append]; exact hfits) ?_
    refine Performs.log (e := .stat (dir ++ ascii "/index.html")) hidx ?_
    cases env.fs.stat (dir ++ ascii "/index.html") with
    | none => exact performs_sendListing hdir
    | some ent =>
      dsimp only
      split
      · exact performs_sendListing hdir
      · exact performs_sendFile hidx

theorem snprintk_fsPath (hurl : url.length < urlMax) :
    snprintk Buffer.fsPath.size (docRoot ++ url) = docRoot ++ url :=
  snprintk_of_lt (by rw [List.length_append, Buffer.size]; omega)

theorem length_pathUnder_le (hurl : url.length < urlMax) :
    (pathUnder url).length ≤ docRoot.length + urlMax := by
  have hle : (pathUnder url).length ≤ (docRoot ++ url).length := by
    rw [pathUnder, dropSlash]
    split
    · rw [List.length_dropLast]
      omega
    · exact le_rfl
  rw [List.length_append] at hle
  omega

theorem performs_serveGet (hdir : P (pathUnder url)) (hidx : P (pathUnder url ++ ascii "/index.html"))
    (hurl : url.length < urlMax) :
    Performs env req P c (serveGet env c url (pathUnder url) forceList)
      (getAnswer env c.head url forceList) := by
  rw [serveGet, getAnswer]
  split
  · next hroot =>
    subst hroot
    rw [show pathUnder (ascii "/") = docRoot by decide] at hdir hidx
    exact performs_serveDir hdir hidx (Nat.le_add_right _ _)
  · refine Performs.log (e := .stat (pathUnder url)) hdir ?_
    cases env.fs.stat (pathUnder url) with
    | none => exact .of_eq rfl
    | some ent =>
      dsimp only
      split
      · have hfits : (url ++ if url.getLast? = some 0x2f then [] else ascii "/").length
            < Buffer.base.size := by
          have hslash : (if url.getLast? = some 0x2f then [] else ascii "/").length ≤ 1 := by
            split <;> decide
          rw [List.length_append, Buffer.size]
          omega
        refine Performs.log (e := .fill .base
          (url ++ (if url.getLast? = some 0x2f then [] else ascii "/") ++ [0]))
          (by rw [Event.Confined, List.length_append]; exact hfits) ?_
        rw [snprintk_of_lt hfits]
        exact performs_serveDir hdir hidx (length_pathUnder_le hurl)
      · exact performs_sendFile hdir

theorem performs_recvPut (hpath : P path) (hhead : c.head = false) :
    Performs env req P c (recvPut env c path (bodyInReq req) (contentLen (cstr req)))
      (if env.fs.openWrite path then .upload path
        else .send c.head (statusReply (ascii "500 Internal Server Error")
          (some (ascii "cannot create file\n")))) := by
  refine Performs.log (e := .openFile path) hpath ?_
  rw [recvPut]
  split
  · refine .of_eq ?_
    rw [perform, ← hhead]
    rfl
  · exact .of_eq rfl

theorem performs_serveFiles {t : Target} (hdir : P (pathUnder t.url))
    (hidx : P (pathUnder t.url ++ ascii "/index.html")) (hurl : t.url.length < urlMax) :
    Performs env req P c (serveFiles env c req method t)
      (filesAnswer env method t.url t.query) := by
  have hfits : (docRoot ++ t.url ++ [0]).length ≤ Buffer.fsPath.size := by
    simp only [List.length_append, List.length_singleton, Buffer.size]
    omega
  refine Performs.log (e := .fill .fsPath (docRoot ++ t.url ++ [0])) hfits ?_
  refine Performs.of_head (h := method == ascii "HEAD") ?_
  simp only [serveFiles, filesAnswer, snprintk_fsPath hurl]
  by_cases hget : (method == ascii "HEAD" || method == ascii "GET") = true
  · rw [if_pos hget, if_pos hget]
    exact performs_serveGet hdir hidx hurl
  · rw [if_neg hget, if_neg hget]
    by_cases hput : (method == ascii "PUT") = true
    · rw [if_pos hput, if_pos hput]
      have hhead : (method == ascii "HEAD") = false := by
        rw [beq_iff_eq.mp hput]
        decide
      exact performs_recvPut hdir hhead
    · rw [if_neg hput, if_neg hput]
      exact .of_eq rfl

/-- The paths a request may reach: the one its URL names, if that is not a bad one, and the index in
it. -/
def Reachable (url p : List Byte) : Prop :=
  badPath url = false ∧ (p = pathUnder url ∨ p = pathUnder url ++ ascii "/index.html")

theorem performs_dispatch {t : Target} (hurl : t.url.length < urlMax) (hhead : c.head = false) :
    Performs env req (Reachable t.url) c (dispatch env c req method t)
      (answer env method t.url t.query) := by
  have hc : { c with head := false } = c := by rw [← hhead]
  rw [dispatch, answer]
  split
  · exact .of_eq (by rw [perform, hc]; rfl)
  · next hgood =>
    have hgood : badPath t.url = false := Bool.eq_false_iff.mpr hgood
    split
    · exact .of_eq (by rw [perform, hc])
    · simp only [hhead, Bool.not_false, Bool.and_true]
      split
      · exact .of_eq (by rw [perform, hc])
      · cases env.webapi method t.url t.query with
        | some r => exact .of_eq (by rw [perform, hc])
        | none => exact performs_serveFiles ⟨hgood, .inl rfl⟩ ⟨hgood, .inr rfl⟩ hurl

/-! ## The whole call -/

theorem splitLine_eq_some {s : List Byte} {line : RequestLine} (h : splitLine s = some line) :
    s = line.method ++ 0x20 :: (line.url ++ 0x20 :: line.version) ∧ 0x20 ∉ line.method ∧
      0x20 ∉ line.url := by
  rw [splitLine] at h
  split at h
  · cases h
  · next sp1 h₁ =>
    obtain ⟨m, r, rfl, rfl, hm⟩ := strchr_eq_some h₁
    have hdrop (p q : List Byte) : (p ++ 0x20 :: q).drop (p.length + 1) = q := by
      simp [List.drop_append]
    rw [hdrop, List.take_left] at h
    split at h
    · cases h
    · next sp2 h₂ =>
      obtain ⟨u, v, rfl, rfl, hu⟩ := strchr_eq_some h₂
      rw [hdrop, List.take_left] at h
      cases h
      exact ⟨rfl, hm, hu⟩

/-- The path a request names, decoded and read as a C string. -/
def RequestLine.decoded (line : RequestLine) : List Byte := cstr (percentDecode (pathOf line.url))

/-- Method and target fit their arrays. -/
def RequestLine.fits (line : RequestLine) : Bool :=
  line.method.length < Buffer.method.size && line.url.length < Buffer.url.size

def RequestLine.answer (env : Env) (line : RequestLine) : Answer :=
  Httpd.answer env line.method line.decoded (queryOf line.url)

namespace Conn

/-- What the one read of a call brings. -/
def request (c : Conn) : List Byte := (c.inlet.recv (reqMax - 1)).1

/-- The request line, if the read brought one that can be served. -/
def line? (c : Conn) : Option RequestLine := (splitLine (cstr c.request)).filter RequestLine.fits

/-- The connection after the read. -/
def started (c : Conn) : Conn :=
  { c with inlet := (c.inlet.recv (reqMax - 1)).2, head := false, keepalive := false }

/-- The connection when the answer is performed: the version has decided on keep-alive. -/
def afterLine (c : Conn) (line : RequestLine) (evs : List Event) : Conn :=
  { c.started with
    keepalive := keepAlive (cstr c.request) line.version
    events := c.events ++ evs }

end Conn

theorem httpdServe_eq (env : Env) (c : Conn) :
    httpdServe env c = if c.request = [] then (false, c.started)
      else match splitLine (cstr c.request) with
        | none => (false, sendStatus c.started (ascii "400 Bad Request") none)
        | some line =>
          if line.fits then
            ((serveRequest env c.started c.request line).keepalive,
              serveRequest env c.started c.request line)
          else (false, sendStatus c.started (ascii "414 URI Too Long") none) := by
  have hnot (line : RequestLine) : (line.fits = true) ↔
      ¬ (line.method.length ≥ Buffer.method.size ∨ line.url.length ≥ Buffer.url.size) := by
    simp [RequestLine.fits]
  simp only [hnot, ite_not]
  rfl

/-- **Without a request line the connection closes**, and the file system is not asked. -/
theorem httpdServe_of_none (env : Env) (h : c.line? = none) :
    (httpdServe env c).1 = false ∧ (httpdServe env c).2.events = c.events := by
  rw [httpdServe_eq]
  split
  · exact ⟨rfl, rfl⟩
  · cases hline : splitLine (cstr c.request) with
    | none => exact ⟨rfl, rfl⟩
    | some line =>
      have hfits := Option.filter_eq_none_iff.mp h line hline
      dsimp only
      rw [if_neg hfits]
      exact ⟨rfl, rfl⟩

theorem length_decoded_le (line : RequestLine) :
    line.decoded.length ≤ (percentDecode (pathOf line.url)).length ∧
      (percentDecode (pathOf line.url)).length ≤ line.url.length :=
  ⟨(List.takeWhile_sublist _).length_le,
    (length_percentDecode_le _).trans (List.takeWhile_sublist _).length_le⟩

theorem performs_serveRequest {line : RequestLine} (hnul : 0 ∉ line.url) (hfits : line.fits = true)
    (hhead : c.head = false) :
    Performs env req (Reachable line.decoded)
      { c with keepalive := keepAlive (cstr req) line.version } (serveRequest env c req line)
      (line.answer env) := by
  simp only [RequestLine.fits, Bool.and_eq_true, decide_eq_true_iff] at hfits
  obtain ⟨hdec, hpct⟩ := length_decoded_le line
  rw [serveRequest, target_eq hnul]
  refine Performs.log (e := .fill .method (line.method ++ [0]))
    (by rw [Event.Confined, List.length_append]; exact hfits.1) ?_
  refine Performs.log (e := .fill .url (line.url ++ [0]))
    (by rw [Event.Confined, List.length_append]; exact hfits.2) ?_
  refine Performs.log (e := .fill .url (percentDecode (pathOf line.url) ++ [0]))
    (by rw [Event.Confined, List.length_append]; exact Nat.succ_le_of_lt (hpct.trans_lt hfits.2)) ?_
  have hurl : (Target.mk line.decoded (queryOf line.url)
      (percentDecode (pathOf line.url) ++ [0])).url.length < urlMax :=
    (hdec.trans hpct).trans_lt hfits.2
  exact performs_dispatch hurl hhead

/-- **A request is answered as decided**: one read, events confined to the path the request names, and
the answer. -/
theorem httpdServe_of_some (env : Env) {line : RequestLine} (h : c.line? = some line) :
    ∃ evs, (∀ e ∈ evs, Event.Confined (Reachable line.decoded) e) ∧
      (httpdServe env c).2 = perform env c.request (c.afterLine line evs) (line.answer env) ∧
      (httpdServe env c).1 = (httpdServe env c).2.keepalive := by
  obtain ⟨hline, hfits⟩ := Option.filter_eq_some_iff.mp h
  have hreq : c.request ≠ [] := fun hnil => by
    rw [hnil] at hline
    cases hline
  rw [httpdServe_eq, if_neg hreq, hline]
  dsimp only
  rw [if_pos hfits]
  have hnul : 0 ∉ line.url := fun hmem => by
    refine zero_not_mem_cstr c.request ?_
    rw [(splitLine_eq_some hline).1]
    exact List.mem_append_right _ (List.mem_cons_of_mem _ (List.mem_append_left _ hmem))
  obtain ⟨evs, hevs, heq⟩ := performs_serveRequest hnul hfits (show c.started.head = false from rfl)
  exact ⟨evs, hevs, heq, rfl⟩

end KlaussRuntime.Httpd
