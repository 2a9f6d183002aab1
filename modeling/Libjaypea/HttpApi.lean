import Libjaypea.Json
import Libjaypea.Util

/-!
# The HTTP API: data and file serving

The data of `HttpApi`, and the functions that answer a request: `respond`,
`respond_404` and `respond_http` with its two ways of serving a file, from the
file cache and from the disk.  The system calls are given by a `System` over a
state of their own, and every call that matters to an observer is recorded.
-/

namespace Libjaypea

def bufferLimit : Nat := 8192

structure HttpResponse where
  start : Bytes
  status : Bytes
  headers : List (Bytes × Bytes)
  body : Bytes

namespace HttpResponse

def default : HttpResponse :=
  ⟨bytes "HTTP/1.1", bytes "200 Ok", [], []⟩

def setHeader (response : HttpResponse) (name value : Bytes) : HttpResponse :=
  { response with headers := KeyedList.set response.headers name value }

def str (response : HttpResponse) : Bytes :=
  response.start ++ [ch ' '] ++ response.status ++ bytes "\r\n" ++
    response.headers.flatMap (fun header => header.1 ++ bytes ": " ++ header.2 ++ bytes "\r\n") ++
    bytes "\r\n" ++ response.body

end HttpResponse

structure View where
  route : Bytes
  method : Bytes
  parameters : List (Bytes × Bytes)
  size : Int

/-- `new char[n]` leaves its bytes unset; `data` gives the ones that were written. -/
structure CachedFile where
  data : Nat → Option UInt8
  dataLength : Nat
  modified : Int

namespace CachedFile

/-- `memcpy(data + offset, buffer, length)` for the bytes of `buffer`. -/
def write (file : CachedFile) (offset : Nat) (buffer : Bytes) : CachedFile :=
  { file with
    data := fun i =>
      if offset ≤ i ∧ i < offset + buffer.length then buffer[i - offset]? else file.data i }

/-- The first `data_length` bytes; unset ones are whatever the heap holds. -/
def content (file : CachedFile) (heap : Memory) : Bytes :=
  (List.range file.dataLength).map fun i => (file.data i).getD (heap i)

end CachedFile

structure Session where
  captcha : Bytes
  created : Int

/-- A route; its handlers may read and change the state `σ` of the program. -/
structure Route (σ : Type) where
  function : Option (JsonObject → σ → Bytes × σ)
  formFunction : Option (JsonObject → σ → View × σ)
  tokenFunction : Option (JsonObject → JsonObject → σ → Bytes × σ)
  requiredParameters : List (Bytes × JsonType)
  requiresHuman : Bool
  minimumMsBetweenCall : Int
  clientMsAtCall : List (Bytes × Int)

/-- The members that requests read or change.  `fileCacheMutex` says whether
another thread holds the mutex. -/
structure HttpApi (σ : Type) where
  publicDirectory : Bytes
  fileCache : List (Bytes × CachedFile)
  fileCacheRemainingBytes : Int
  fileCacheMutex : Bool
  sessions : List (Bytes × Session)
  routemap : List (Bytes × Route σ)

inductive FileKind
  | directory
  | regular
  | other
  deriving DecidableEq, Repr

structure Stat where
  kind : FileKind
  size : Nat
  mtime : Int
  deriving DecidableEq, Repr

/-- The answers of the system calls. -/
structure System (σ : Type) where
  lstat : Bytes → σ → Option Stat × σ
  /-- The new descriptor, negative on an error. -/
  openFile : Bytes → σ → Int × σ
  /-- `none` on an error, otherwise at most the given number of bytes. -/
  read : Int → Nat → σ → Option Bytes × σ
  /-- Whether the call succeeds. -/
  close : Int → σ → Bool × σ
  /-- The boolean of `EpollServer::send`: true on an error. -/
  send : Int → Bytes → σ → Bool × σ
  /-- What lies in memory that the program has allocated and not written. -/
  heap : Memory

inductive Event
  | lstat (path : Bytes)
  | opened (path : Bytes) (fd : Int)
  | read (fd : Int) (data : Option Bytes)
  | closed (fd : Int)
  /-- `respond` sends the response. -/
  | responded (response : HttpResponse) (failed : Bool)
  /-- Bytes sent behind a response. -/
  | sent (data : Bytes) (failed : Bool)

/-- The state of the system and the events so far, the newest one last. -/
structure World (σ : Type) where
  state : σ
  events : List Event

namespace World

variable {σ : Type} (system : System σ)

def lstat (world : World σ) (path : Bytes) : Option Stat × World σ :=
  let (stat, state) := system.lstat path world.state
  (stat, ⟨state, world.events ++ [.lstat path]⟩)

def openFile (world : World σ) (path : Bytes) : Int × World σ :=
  let (fd, state) := system.openFile path world.state
  (fd, ⟨state, world.events ++ [.opened path fd]⟩)

def read (world : World σ) (fd : Int) : Option Bytes × World σ :=
  let (data, state) := system.read fd bufferLimit world.state
  (data, ⟨state, world.events ++ [.read fd data]⟩)

def close (world : World σ) (fd : Int) : Bool × World σ :=
  let (closed, state) := system.close fd world.state
  (closed, ⟨state, world.events ++ [.closed fd]⟩)

def send (world : World σ) (fd : Int) (data : Bytes) : Bool × World σ :=
  let (failed, state) := system.send fd data world.state
  (failed, ⟨state, world.events ++ [.sent data failed]⟩)

end World

/-- What `respond_http` returns and leaves behind. -/
structure Answer (σ : Type) where
  result : Int
  api : HttpApi σ
  world : World σ

namespace HttpApi

variable {σ : Type} (system : System σ)

def toString (number : Nat) : Bytes :=
  bytes (Nat.repr number)

/-- The header that `respond` adds to the response it is given. -/
def withContentLength (response : HttpResponse) : HttpResponse :=
  if KeyedList.contains response.headers (bytes "Content-Length") then response
  else response.setHeader (bytes "Content-Length") (toString response.body.length)

theorem body_withContentLength (response : HttpResponse) :
    (withContentLength response).body = response.body := by
  unfold withContentLength
  split <;> rfl

def respond (world : World σ) (fd : Int) (response : HttpResponse) : Int × World σ :=
  let response := withContentLength response
  let (failed, state) := system.send fd response.str world.state
  (if failed then -1 else response.str.length,
    ⟨state, world.events ++ [.responded response failed]⟩)

def respond404 (world : World σ) (fd : Int) : Int × World σ :=
  respond system world fd
    ⟨bytes "HTTP/1.1", bytes "302 Not Found", [(bytes "Location", bytes "404.html")],
      bytes "<h1 style='text-align:center;'>404 Not Found</h1>"⟩

/-- The chunks of `respond_cached_file`; `none` when a send fails. -/
def sendChunks (fd : Int) (data : Bytes) :
    Nat → Nat → Nat → World σ → Option (Bool × World σ)
  | 0, _, _, _ => none
  | fuel + 1, offset, bufferSize, world =>
      if bufferSize = bufferLimit then
        let bufferSize :=
          if offset + bufferSize > data.length then data.length % bufferLimit else bufferSize
        let (failed, world) := world.send system fd ((data.drop offset).take bufferSize)
        if failed then some (false, world)
        else sendChunks fd data fuel (offset + bufferSize) bufferSize world
      else some (true, world)

/-- The result is a number of bytes, or `-1`. -/
def respondCachedFile (world : World σ) (fd : Int) (response : HttpResponse)
    (cachedFile : CachedFile) (fuel : Nat) : Option (Int × World σ) :=
  let response :=
    response.setHeader (bytes "Content-Length") (toString cachedFile.dataLength)
  let (headersSize, world) := respond system world fd response
  (sendChunks system fd (cachedFile.content system.heap) fuel 0 bufferLimit world).map
    fun (complete, world) =>
      (if complete then headersSize + cachedFile.dataLength else -1, world)

/-- The parameter loop: every `{{{key}}}` becomes the value of the key. -/
def substitute (parameters : List (Bytes × Bytes)) (body : Bytes) (fuel : Nat) : Option Bytes :=
  match parameters with
  | [] => some body
  | (key, value) :: rest =>
      (Util.replaceAll body (bytes "\x7b\x7b\x7b" ++ key ++ bytes "\x7d\x7d\x7d") value fuel).bind
        fun body => substitute rest body fuel

/-- The clean-up loop.  The length given to `substr` is unsigned: it wraps
around when the closing braces come first. -/
def cleanUp : Nat → Bytes → Option Bytes
  | 0, _ => none
  | fuel + 1, body =>
      match Util.find (bytes "\x7b\x7b\x7b") body with
      | none => some body
      | some parameterStart =>
          match Util.find (bytes "\x7d\x7d\x7d") body with
          | none => some body
          | some parameterEnd =>
              let length := (parameterEnd + 2 ^ 64 - parameterStart + 3) % 2 ^ 64
              let parameter := (body.drop parameterStart).take length
              (Util.replaceAll body parameter [] fuel).bind fun body => cleanUp fuel body

/-- `respond_http` and `respond_parameterized_view` each contain this code. -/
def templatize (parameters : List (Bytes × Bytes)) (body : Bytes) (fuel : Nat) : Option Bytes :=
  (substitute parameters body fuel).bind fun body => cleanUp fuel body

def respondParameterizedView (world : World σ) (fd : Int) (view : View) (response : HttpResponse)
    (fuel : Nat) : Option (Int × World σ) :=
  let (fileFd, world) := world.openFile system view.route
  if fileFd < 0 then some (-1, world)
  else
    match world.read system fileFd with
    | (none, world) => some (-1, world)
    | (some buffer, world) =>
        let (closed, world) := world.close system fileFd
        if !closed then some (-1, world)
        else if (buffer.length : Int) ≠ view.size then some (-1, world)
        else
          (templatize view.parameters buffer fuel).map fun body =>
            respond system world fd { response with body := body }

/-- The loop of `respond_view`: false when a call fails. -/
def sendFile (fd fileFd : Int) : Nat → World σ → Option (Bool × World σ)
  | 0, _ => none
  | fuel + 1, world =>
      if fileFd > 0 then
        match world.read system fileFd with
        | (none, world) => some (false, world)
        | (some buffer, world) =>
            let (failed, world) := world.send system fd buffer
            if failed then some (false, world)
            else if buffer.length < bufferLimit then some (true, world)
            else sendFile fd fileFd fuel world
      else some (true, world)

def respondView (world : World σ) (fd : Int) (view : View) (response : HttpResponse)
    (fuel : Nat) : Option (Int × World σ) :=
  let (sent, world) := respond system world fd response
  if sent < 0 then some (-1, world)
  else
    let (fileFd, world) := world.openFile system view.route
    if fileFd < 0 then some (-1, world)
    else
      (sendFile system fd fileFd fuel world).map fun (complete, world) =>
        if !complete then (-1, world)
        else
          let (closed, world) := world.close system fileFd
          if !closed then (-1, world)
          else ((withContentLength response).str.length + view.size, world)

/-- The loop that drops a dot in front of another dot. -/
def cleanRoute : Bytes → Bytes
  | [] => []
  | [byte] => [byte]
  | byte :: following :: rest =>
      if byte = ch '.' ∧ following = ch '.' then cleanRoute (following :: rest)
      else byte :: cleanRoute (following :: rest)

/-- The path of the regular file to serve; `none` is answered by `respond_404`. -/
def resolve (world : World σ) (path : Bytes) : Option (Bytes × Stat) × World σ :=
  match world.lstat system path with
  | (none, world) => (none, world)
  | (some stat, world) =>
      if stat.kind = .directory then
        match world.lstat system (path ++ bytes "/index.html") with
        | (none, world) => (none, world)
        | (some stat, world) =>
            (if stat.kind = .regular then some (path ++ bytes "/index.html", stat) else none, world)
      else (if stat.kind = .regular then some (path, stat) else none, world)

def isHtml (path : Bytes) : Bool :=
  Util.endsWith path (bytes ".html")

def contentType (path : Bytes) : Bytes :=
  if Util.endsWith path (bytes ".css") then bytes "text/css"
  else if isHtml path then bytes "text/html"
  else if Util.endsWith path (bytes ".svg") then bytes "image/svg+xml"
  else if Util.endsWith path (bytes ".js") then bytes "text/javascript"
  else bytes "text/plain"

/-- A modified file is no longer in the cache. -/
def dropModified (api : HttpApi σ) (path : Bytes) (stat : Stat) : HttpApi σ :=
  match KeyedList.get? api.fileCache path with
  | none => api
  | some cachedFile =>
      if stat.mtime ≠ cachedFile.modified then
        { api with fileCache := KeyedList.erase api.fileCache path }
      else api

/-- The loop that copies a file into its cache entry: false when a read fails. -/
def fill (fileFd : Int) : Nat → Nat → CachedFile → World σ →
    Option (Bool × CachedFile × World σ)
  | 0, _, _, _ => none
  | fuel + 1, offset, cachedFile, world =>
      if fileFd > 0 then
        match world.read system fileFd with
        | (none, world) => some (false, cachedFile, world)
        | (some buffer, world) =>
            let cachedFile := cachedFile.write offset buffer
            if buffer.length < bufferLimit then some (true, cachedFile, world)
            else fill fileFd fuel (offset + buffer.length) cachedFile world
      else some (true, cachedFile, world)

/-- `Cache the file.`: the new entry stays in the cache also when the fill
fails, which the boolean tells. -/
def cacheFile (api : HttpApi σ) (world : World σ) (path : Bytes) (stat : Stat) (fuel : Nat) :
    Option (Bool × HttpApi σ × World σ) :=
  let cachedFile : CachedFile := ⟨fun _ => none, stat.size, stat.mtime⟩
  let stored (cachedFile : CachedFile) : HttpApi σ :=
    { api with
      fileCache := KeyedList.set api.fileCache path cachedFile
      fileCacheRemainingBytes := api.fileCacheRemainingBytes - stat.size }
  let (fileFd, world) := world.openFile system path
  if fileFd < 0 then some (false, stored cachedFile, world)
  else
    (fill system fileFd fuel 0 cachedFile world).map fun (complete, cachedFile, world) =>
      if !complete then (false, stored cachedFile, world)
      else
        let (closed, world) := world.close system fileFd
        (closed, stored cachedFile, world)

/-- The last part of `respond_http`: from the cache, or else from the disk. -/
def serve (api : HttpApi σ) (world : World σ) (fd : Int) (view : View) (response : HttpResponse)
    (path : Bytes) (stat : Stat) (fuel : Nat) : Option (Int × World σ) :=
  match KeyedList.get? api.fileCache path with
  | some cachedFile =>
      if cachedFile.dataLength < bufferLimit ∧ isHtml path then
        (templatize view.parameters (cachedFile.content system.heap) fuel).map fun body =>
          respond system world fd { response with body := body }
      else respondCachedFile system world fd response cachedFile fuel
  | none =>
      let view : View := { view with size := stat.size }
      if view.size < (bufferLimit : Int) ∧ isHtml path then
        respondParameterizedView system world fd view response fuel
      else respondView system world fd view response fuel

def respondHttp (api : HttpApi σ) (world : World σ) (fd : Int) (view : View)
    (response : HttpResponse) (fuel : Nat) : Option (Answer σ) :=
  match resolve system world (api.publicDirectory ++ cleanRoute view.route) with
  | (none, world) =>
      let (result, world) := respond404 system world fd
      some ⟨result, api, world⟩
  | (some (path, stat), world) =>
      let response := response.setHeader (bytes "Content-Type") (contentType path)
      if view.method = bytes "HEAD" then
        let (result, world) := respond system world fd
          (response.setHeader (bytes "Content-Length") (toString stat.size))
        some ⟨result, api, world⟩
      else
        let api := dropModified api path stat
        if !KeyedList.contains api.fileCache path ∧ api.fileCacheRemainingBytes > stat.size ∧
            !api.fileCacheMutex then
          (cacheFile system api world path stat fuel).bind fun (filled, api, world) =>
            if !filled then some ⟨-1, api, world⟩
            else
              (serve system api world fd view response path stat fuel).map
                fun (result, world) => ⟨result, api, world⟩
        else
          (serve system api world fd view response path stat fuel).map
            fun (result, world) => ⟨result, api, world⟩

end HttpApi

end Libjaypea
