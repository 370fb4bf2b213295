import KlaussRuntime.Httpd.Url
import KlaussRuntime.Machinery.Transport

/-!
# Httpd/Server — one request of the HTTP file server (`httpd.c`)

`httpdServe` reads once, parses the request line, and answers on one of many paths: a status line, a
profile, zeros from RAM, a loadable backend, a file, a directory listing, an upload.  The connection
carries the two directions of the transport, the flags `head` and `keepalive`, what the files hold,
and a log of every path handed to the file system and every fixed buffer that is written.

The file system, the backends and the profiler are the environment: `Env` gives each of their answers.
-/

namespace KlaussRuntime.Httpd

open Machinery

def docRoot : List Byte := ascii "/SD:"
def reqMax : ℕ := 1024
def xferSz : ℕ := 16384
def urlMax : ℕ := 256

/-! ## The environment and the connection -/

/-- The arrays of fixed size. -/
inductive Buffer where
  | method
  | url
  | fsPath
  | base
  | idx

def Buffer.size : Buffer → ℕ
  | method => 8
  | url => urlMax
  | fsPath => docRoot.length + urlMax + 2
  | base => urlMax + 1
  | idx => docRoot.length + urlMax + 12

inductive Event where
  /-- bytes asked to be written from the start of a buffer, the NUL included -/
  | fill (b : Buffer) (bytes : List Byte)
  | stat (path : List Byte)
  | openFile (path : List Byte)
  | openDir (path : List Byte)

structure Dirent where
  name : List Byte
  isDir : Bool
  size : ℕ
deriving DecidableEq

/-- What the file system answers: `none` and `false` are errors, a file that is opened for reading
gives the results of the reads up to the first that is not positive, and `write k n` is the result of
write `k` of an upload when it offers `n` bytes. -/
structure Fs where
  stat : List Byte → Option Dirent
  openRead : List Byte → Option (List (List Byte))
  openWrite : List Byte → Bool
  write : ℕ → ℕ → ℤ
  openDir : List Byte → Option (List Dirent)

/-- An answer through `httpd_send`. -/
structure Reply where
  status : List Byte
  contentType : List Byte
  body : Option (List Byte)
deriving DecidableEq

structure Env where
  /-- CONFIG_KLAUSSCPU_SSH_SERVER -/
  sshServer : Bool
  /-- what `bench_prof_report` writes -/
  profReport : List Byte
  /-- `webapi_handle` on method, path and query: the reply of the backend that takes the request -/
  webapi : List Byte → List Byte → List Byte → Option Reply
  fs : Fs

structure Conn where
  inlet : Inlet
  outlet : Outlet
  head : Bool
  keepalive : Bool
  files : List Byte → List Byte
  events : List Event

namespace Conn

def log (c : Conn) (e : Event) : Conn := { c with events := c.events ++ [e] }

def recv (c : Conn) (room : ℕ) : List Byte × Conn :=
  ((c.inlet.recv room).1, { c with inlet := (c.inlet.recv room).2 })

def sendAll (c : Conn) (buf : List Byte) : Bool × Conn :=
  ((c.outlet.sendAll buf).1, { c with outlet := (c.outlet.sendAll buf).2 })

def sendStr (c : Conn) (s : List Byte) : Bool × Conn := c.sendAll (cstr s)

end Conn

/-! ## Responses -/

/-- The head every response of known length has. -/
def headText (status contentType : List Byte) (length : ℕ) (keepalive : Bool) : List Byte :=
  ascii "HTTP/1.1 " ++ status ++ ascii "\r\nContent-Type: " ++ contentType
    ++ ascii "\r\nContent-Length: " ++ decimal length
    ++ ascii "\r\nConnection: " ++ (if keepalive then ascii "keep-alive" else ascii "close")
    ++ ascii "\r\n\r\n"

/-- The body of a reply, unless the request was HEAD. -/
def sendBody (c : Conn) (body : Option (List Byte)) : Conn :=
  match body with
  | some b => if c.head then c else (c.sendStr b).2
  | none => c

def httpdSend (c : Conn) (r : Reply) : Conn :=
  let blen := (r.body.map fun b => (cstr b).length).getD 0 % 2 ^ 32
  let c := (c.sendStr (snprintk 200 (headText r.status r.contentType blen c.keepalive))).2
  sendBody c r.body

def statusReply (status : List Byte) (body : Option (List Byte)) : Reply :=
  ⟨status, ascii "text/plain", body⟩

def sendStatus (c : Conn) (status : List Byte) (body : Option (List Byte)) : Conn :=
  httpdSend c (statusReply status body)

/-! ## Directory listing -/

/-- One entry: its link, and the size of a file. -/
def listEntry (url : List Byte) (c : Conn) (ent : Dirent) : Conn :=
  let slash := if ent.isDir then ascii "/" else []
  let c := (c.sendStr (snprintk xferSz (ascii "<li><a href=\"" ++ url ++ ent.name ++ slash
    ++ ascii "\">" ++ ent.name ++ slash ++ ascii "</a></li>"))).2
  if ent.isDir then c
  else (c.sendStr (snprintk xferSz
    (ascii "<li style=\"list-style:none;margin-left:1em;color:#888\">"
      ++ decimal (ent.size % 2 ^ 32) ++ ascii " bytes</li>"))).2

/-- The link to the parent, unless at the root. -/
def parentLink (c : Conn) (url : List Byte) : Conn :=
  if url = ascii "/" then c else (c.sendStr (ascii "<li><a href=\"../\">../</a></li>")).2

def listingBody (c : Conn) (url : List Byte) (entries : List Dirent) : Conn :=
  let c := (c.sendStr (snprintk xferSz
    (ascii "<!doctype html><html><head><meta charset=utf-8><title>" ++ url
      ++ ascii "</title></head><body><h2>Index of " ++ url ++ ascii "</h2><ul>"))).2
  let c := entries.foldl (listEntry url) (parentLink c url)
  (c.sendStr (ascii "</ul></body></html>\r\n")).2

/-- The listing of an open directory; its length is not known, so the connection closes after it. -/
def streamListing (c : Conn) (url : List Byte) (entries : List Dirent) : Conn :=
  let c := { c with keepalive := false }
  let c := (c.sendStr
    (ascii "HTTP/1.1 200 OK\r\nContent-Type: text/html\r\nConnection: close\r\n\r\n")).2
  if c.head then c else listingBody c url entries

def sendListing (env : Env) (c : Conn) (fsPath url : List Byte) : Conn :=
  let c := c.log (.openDir fsPath)
  match env.fs.openDir fsPath with
  | none => sendStatus c (ascii "404 Not Found") (some (ascii "no such directory\n"))
  | some entries => streamListing c url entries

/-! ## File download -/

def mimeMap : List (String × String) :=
  [("html", "text/html"), ("htm", "text/html"), ("css", "text/css"), ("js", "text/javascript"),
   ("json", "application/json"), ("txt", "text/plain"), ("svg", "image/svg+xml"),
   ("png", "image/png"), ("jpg", "image/jpeg"), ("jpeg", "image/jpeg"), ("gif", "image/gif"),
   ("ico", "image/x-icon"), ("xml", "text/xml"), ("pdf", "application/pdf"),
   ("wasm", "application/wasm")]

def mimeType (path : List Byte) : List Byte :=
  match strrchr 0x2e path with
  | some ext =>
    match mimeMap.find? fun e => ascii e.1 == ext.map tolower with
    | some e => ascii e.2
    | none => ascii "application/octet-stream"
  | none => ascii "application/octet-stream"

/-- Read and send until the file ends or the client is gone. -/
def streamChunks : Conn → List (List Byte) → Conn
  | c, [] => c
  | c, chunk :: chunks =>
    let (ok, c) := c.sendAll chunk
    if ok then streamChunks c chunks else c

/-- An open file of the size `fs_stat` gave. -/
def streamFile (c : Conn) (contentType : List Byte) (size : ℕ) (chunks : List (List Byte)) : Conn :=
  let (ok, c) := c.sendStr
    (snprintk 160 (headText (ascii "200 OK") contentType (size % 2 ^ 32) c.keepalive))
  if ok && !c.head then streamChunks c chunks else c

def sendFile (env : Env) (c : Conn) (fsPath : List Byte) (size : ℕ) : Conn :=
  let c := c.log (.openFile fsPath)
  match env.fs.openRead fsPath with
  | none => sendStatus c (ascii "404 Not Found") (some (ascii "cannot open file\n"))
  | some chunks => streamFile c (mimeType fsPath) size chunks

/-- An index.html inside the directory if there is one, else the listing. -/
def serveDir (env : Env) (c : Conn) (fsDir url : List Byte) (forceList : Bool) : Conn :=
  if forceList then sendListing env c fsDir url
  else
    let full := fsDir ++ ascii "/index.html"
    let idx := snprintk Buffer.idx.size full
    let c := (c.log (.fill .idx (full ++ [0]))).log (.stat idx)
    match env.fs.stat idx with
    | some ent => if ent.isDir then sendListing env c fsDir url else sendFile env c idx ent.size
    | none => sendListing env c fsDir url

/-! ## File upload -/

/-- Write `k` of an upload: what the file system takes of the data is appended. -/
def fsWrite (env : Env) (c : Conn) (path : List Byte) (k : ℕ) (data : List Byte) : Conn :=
  let taken := data.take (env.fs.write k data.length).toNat
  { c with files := Function.update c.files path (c.files path ++ taken) }

/-- The receive loop; the fuel is the number of bytes expected, and each round brings one. -/
def recvBody (env : Env) (path : List Byte) : ℕ → ℕ → ℤ → Conn → ℤ × Conn
  | 0, _, remaining, c => (remaining, c)
  | fuel + 1, k, remaining, c =>
    if remaining ≤ 0 then (remaining, c)
    else
      let (data, c) := c.recv (min xferSz remaining.toNat)
      if data = [] then (remaining, c)
      else recvBody env path fuel (k + 1) (remaining - data.length) (fsWrite env c path k data)

/-- What is still to come once the part of the body in the request buffer is written. -/
def remainingAfter (clen : ℤ) (body : List Byte) : ℤ :=
  if body.length > 0 then Int.bmod (clen - body.length) (2 ^ 64) else clen

/-- The part of the body in the request buffer. -/
def writeFirst (env : Env) (c : Conn) (path body : List Byte) : Conn :=
  if body.length > 0 then fsWrite env c path 0 body else c

/-- The upload into the file just created, and its verdict. -/
def storeUpload (env : Env) (c : Conn) (path body : List Byte) (clen : ℤ) : Conn :=
  let c := writeFirst env { c with files := Function.update c.files path [] } path body
  let k := if body.length > 0 then 1 else 0
  let (remaining, c) :=
    recvBody env path (remainingAfter clen body).toNat k (remainingAfter clen body) c
  if remaining = 0 then sendStatus c (ascii "201 Created") (some (ascii "stored\n"))
  else
    sendStatus { c with keepalive := false } (ascii "400 Bad Request") (some (ascii "short upload\n"))

def recvPut (env : Env) (c : Conn) (fsPath body : List Byte) (clen : ℤ) : Conn :=
  let c := c.log (.openFile fsPath)
  if env.fs.openWrite fsPath then storeUpload env c fsPath body clen
  else sendStatus c (ascii "500 Internal Server Error") (some (ascii "cannot create file\n"))

/-! ## Headers -/

/-- The text after the first occurrence of the key, without regard to case. -/
def findHeader (key : List Byte) : List Byte → Option (List Byte)
  | [] => none
  | b :: s =>
    if key.isPrefixOf ((b :: s).map tolower) then some ((b :: s).drop key.length)
    else findHeader key s

/-- The token somewhere before the end of the line. -/
def lineHas (token : List Byte) : List Byte → Bool
  | [] => false
  | b :: s =>
    if b = 0x0d ∨ b = 0x0a then false
    else (token.map tolower).isPrefixOf ((b :: s).map tolower) || lineHas token s

def connHas (req token : List Byte) : Bool :=
  match findHeader (ascii "connection:") req with
  | none => false
  | some v => lineHas token v

/-- On for HTTP/1.1 unless "Connection: close", off else unless "Connection: keep-alive". -/
def keepAlive (req version : List Byte) : Bool :=
  if (ascii "HTTP/1.1").isPrefixOf version then !connHas req (ascii "close")
  else connHas req (ascii "keep-alive")

/-- `clen` of the PUT branch. -/
def contentLen (req : List Byte) : ℤ :=
  match findHeader (ascii "content-length:") req with
  | some v => strtol v
  | none => 0

/-- The part of the body that the first read brought. -/
def bodyInReq (req : List Byte) : List Byte :=
  match strstr (ascii "\r\n\r\n") (cstr req) with
  | some i => req.drop (i + 4)
  | none => []

/-! ## Request dispatch -/

/-- METHOD SP URL SP version, and all that follows the second blank. -/
structure RequestLine where
  method : List Byte
  url : List Byte
  version : List Byte
deriving DecidableEq

def splitLine (req : List Byte) : Option RequestLine :=
  match strchr 0x20 req with
  | none => none
  | some sp1 =>
    match strchr 0x20 (req.drop (sp1 + 1)) with
    | none => none
    | some sp2 =>
      some ⟨req.take sp1, (req.drop (sp1 + 1)).take sp2, (req.drop (sp1 + 1)).drop (sp2 + 1)⟩

/-- Zeros in pieces of the transfer buffer; the fuel is their number, and each round sends one. -/
def sendZeros : ℕ → Conn → ℕ → Conn
  | 0, c, _ => c
  | fuel + 1, c, total =>
    if total = 0 then c
    else
      let n := if total < xferSz then total else xferSz
      let (ok, c) := c.sendAll (List.replicate n 0)
      if ok then sendZeros fuel c (total - n) else c

/-- `/__zero/<bytes>`. -/
def zeroTotal (url : List Byte) : ℕ :=
  let total := strtoul (url.drop 8)
  if total > 64 * 1024 * 1024 then 64 * 1024 * 1024 else total

def serveZero (c : Conn) (total : ℕ) : Conn :=
  let (ok, c) := c.sendStr (snprintk 128
    (headText (ascii "200 OK") (ascii "application/octet-stream") total c.keepalive))
  if ok then sendZeros total c total else c

def isProf (url : List Byte) : Bool := url == ascii "/__prof/start" || url == ascii "/__prof/stop"

/-- `/__prof/start` and `/__prof/stop`, told apart by `url[8..10]`. -/
def profReply (env : Env) (url : List Byte) : Reply :=
  if url.getD 8 0 = 0x73 ∧ url.getD 9 0 = 0x74 ∧ url.getD 10 0 = 0x61 then
    ⟨ascii "200 OK", ascii "text/plain", some (ascii "started\n")⟩
  else ⟨ascii "200 OK", ascii "text/plain", some env.profReport⟩

/-- Without the trailing slash, the bare mount root apart. -/
def dropSlash (fsPath : List Byte) : List Byte :=
  if fsPath.length > docRoot.length ∧ fsPath.getLast? = some 0x2f then fsPath.dropLast else fsPath

/-- `GET` and `HEAD`. -/
def serveGet (env : Env) (c : Conn) (url fsPath : List Byte) (forceList : Bool) : Conn :=
  if url = ascii "/" then serveDir env c docRoot (ascii "/") forceList
  else
    let c := c.log (.stat fsPath)
    match env.fs.stat fsPath with
    | none => sendStatus c (ascii "404 Not Found") (some (ascii "not found\n"))
    | some ent =>
      if ent.isDir then
        let base := url ++ if url.getLast? = some 0x2f then [] else ascii "/"
        let c := c.log (.fill .base (base ++ [0]))
        serveDir env c fsPath (snprintk Buffer.base.size base) forceList
      else sendFile env c fsPath ent.size

/-- The file server proper, for what no backend took. -/
def serveFiles (env : Env) (c : Conn) (req method : List Byte) (t : Target) : Conn :=
  let forceList := (strstr (ascii "list") t.query).isSome
  let full := docRoot ++ t.url
  let c := c.log (.fill .fsPath (full ++ [0]))
  let fsPath := dropSlash (snprintk Buffer.fsPath.size full)
  let c := { c with head := method == ascii "HEAD" }
  if c.head || method == ascii "GET" then serveGet env c t.url fsPath forceList
  else if method == ascii "PUT" then recvPut env c fsPath (bodyInReq req) (contentLen (cstr req))
  else sendStatus c (ascii "405 Method Not Allowed") (some (ascii "GET/HEAD/PUT only\n"))

/-- `url[0] != '/' || strstr(url, "..") != NULL`. -/
def badPath (url : List Byte) : Bool := url.head? != some 0x2f || (strstr (ascii "..") url).isSome

/-- From the parsed request line on. -/
def dispatch (env : Env) (c : Conn) (req method : List Byte) (t : Target) : Conn :=
  if badPath t.url then
    sendStatus c (ascii "403 Forbidden") (some (ascii "bad path\n"))
  else if env.sshServer && isProf t.url then httpdSend c (profReply env t.url)
  else if (ascii "/__zero/").isPrefixOf t.url && !c.head then serveZero c (zeroTotal t.url)
  else
    match env.webapi method t.url t.query with
    | some r => httpdSend c r
    | none => serveFiles env c req method t

/-- A request whose line fits the buffers. -/
def serveRequest (env : Env) (c : Conn) (req : List Byte) (line : RequestLine) : Conn :=
  let c := (c.log (.fill .method (line.method ++ [0]))).log (.fill .url (line.url ++ [0]))
  let c := { c with keepalive := keepAlive (cstr req) line.version }
  let t := target line.url
  dispatch env (c.log (.fill .url t.written)) req line.method t

def httpdServe (env : Env) (c : Conn) : Bool × Conn :=
  let c := { c with head := false, keepalive := false }
  let (req, c) := c.recv (reqMax - 1)
  if req = [] then (false, c)
  else
    match splitLine (cstr req) with
    | none => (false, sendStatus c (ascii "400 Bad Request") none)
    | some line =>
      if line.method.length ≥ Buffer.method.size ∨ line.url.length ≥ Buffer.url.size then
        (false, sendStatus c (ascii "414 URI Too Long") none)
      else
        let c := serveRequest env c req line
        (c.keepalive, c)

end KlaussRuntime.Httpd
