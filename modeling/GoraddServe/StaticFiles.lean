import GoraddServe.CacheBuster
import GoraddServe.HeaderValues

/-!
# Serving a file system

A request names a file, which may be there as it is and in two compressed forms. Of what there is
one is chosen by the codings that the client accepts, and it is sent as it is, sent with its
coding or decompressed into a temporary file first. A file processor may take the place of all
that is written. What is opened, processed and served is recorded beside the exchange.
-/
namespace GoraddServe.StaticFiles
open GoMaps GoPaths Panics ResponseWriters CacheBuster
open HeaderValues (trimSpace)

variable {ε : Type}

/-- What is read from a file or a decoder, up to its end or to an error. -/
structure Reader where
  data : Bytes
  err : Option String
  deriving DecidableEq

/-- `time.Time`, whose zero value is 0. -/
abbrev Time := Int

structure FileInfo where
  isDir : Bool
  modTime : Time

/-- An open `fs.File`, which may be a directory; `seeker` tells whether it is an `io.ReadSeeker`. -/
structure File where
  isDir : Bool
  stat : Except String FileInfo
  seeker : Bool
  reader : Reader

/-- What `fs.WalkDir` gives to its function. -/
structure WalkEntry where
  path : Path
  isDir : Bool
  err : Option String

/-- `fs.FS` with the functions of io/fs for it. -/
structure FileSystem where
  Stat : Path → Except String FileInfo
  Open : Path → Except String File
  ReadFile : Path → Except String Bytes
  walk : List WalkEntry

/-- An `http.Request` with its `URL.Path` and the values of `Accept-Encoding`. -/
structure FileRequest extends Request where
  path : Path
  acceptEncoding : Option (List String)

/-- The loop over `Accept-Encoding` finds this coding. -/
def accepts (r : FileRequest) (coding : String) : Bool :=
  match r.acceptEncoding with
  | none => false
  | some values => values.any fun value1 =>
      (value1.toList.splitOn ',').any fun value => trimSpace value == coding.toList

/-- `FileProcessorFunc`, which returns the text of an error if there is one. -/
abbrev FileProcessorFunc (ε : Type) := Reader → Writer → FileRequest → HandlerM ε (Option String)

/-- The build, what has been registered, and what the code calls of other packages. -/
structure Env (ε : Type) where
  /-- `config.Release` -/
  release : Bool
  fileProcessors : GoMap Path (FileProcessorFunc ε)
  contentTypes : GoMap Path String
  strs : StringTests
  /-- `brotli.NewReader` -/
  brotli : Reader → Reader
  /-- `gzip.NewReader` -/
  gzip : Reader → Except String Reader
  /-- an error of `os.CreateTemp` -/
  createTemp : Option String
  /-- an error when this is written to a temporary file -/
  writeTemp : Bytes → Option String
  /-- the `Stat` of a temporary file -/
  statTemp : Except String FileInfo
  /-- `http.ServeContent` -/
  serveContent : Writer → FileRequest → Path → Time → Reader → HandlerM ε Unit

def Env.registerFileProcessor (env : Env ε) (extension : Path) (p : FileProcessorFunc ε) : Env ε :=
  { env with fileProcessors := env.fileProcessors.set extension p }

def Env.registerContentType (env : Env ε) (extension : Path) (contentType : String) : Env ε :=
  { env with contentTypes := env.contentTypes.set extension contentType }

/-- The exchange, the names given to `Open`, what the processors got, and what `http.ServeContent`
got. -/
structure Serving (ε : Type) where
  exchange : Exchange ε
  opened : List Path
  processed : List Reader
  served : List File

abbrev ServeM (ε α : Type) := GoM PanicValue (Serving ε) α

def onExchange {α : Type} (m : HandlerM ε α) : ServeM ε α := fun s =>
  ((outcome m s.exchange).1, { s with exchange := (outcome m s.exchange).2 })

/-- `http.NotFound(w, r)` -/
def notFound (w : Writer) : HandlerM ε Unit := do
  modify fun x => { x with server.header := x.server.header.delete "Content-Length" }
  w.setHeader "Content-Type" "text/plain; charset=utf-8"
  w.setHeader "X-Content-Type-Options" "nosniff"
  w.writeHeader 404
  let _ ← w.write (bytes "404 page not found\n")

def brotliSuffix : Path := bytes ".br"

def gzipSuffix : Path := bytes ".gz"

structure FileSystemServer where
  Fsys : FileSystem
  SendModTime : Bool
  UseCacheBuster : Bool
  Hide : List Path

/-- A file that is not an `io.ReadSeeker`. -/
def notSeeker : PanicValue := .error "interface conversion: missing method Seek"

namespace FileSystemServer

variable (f : FileSystemServer) (env : Env ε) (w : Writer) (r : FileRequest)

def pathExists (path : Path) : Bool := (f.Fsys.Stat path).isOk

/-- `f.Fsys.Open(path)` -/
def openFile (path : Path) : ServeM ε (Except String File) := do
  modify fun s => { s with opened := s.opened ++ [path] }
  return f.Fsys.Open path

/-- The time that is sent as that of the last modification. -/
def modTime (file : File) : Except String Time :=
  if f.SendModTime then file.stat.map FileInfo.modTime else .ok 0

def serveFile (name : Path) (file : File) : ServeM ε (Option String) :=
  match f.modTime file with
  | .error err => return some err
  | .ok modTime => do
    if !env.release then
      onExchange (w.setHeader "Cache-Control" "no-cache, no-store, must-revalidate, max-age=1")
    if !file.seeker then throw notSeeker
    modify fun s => { s with served := s.served ++ [file] }
    onExchange (env.serveContent w r name modTime file.reader)
    return none

/-- `io.Copy` of what is decoded into a temporary file, which is then an `io.ReadSeeker`. -/
def copyTemp (reader : Reader) : Except String File :=
  match reader.err with
  | some err => .error err
  | none => match env.writeTemp reader.data with
    | some err => .error err
    | none => .ok ⟨false, env.statTemp, true, reader⟩

/-- What `serveDecompressedBrotli` and `serveDecompressedGzip` do, for a way to make the reader
that decodes. -/
def serveDecompressed (decoder : Reader → Except String Reader) (name path : Path) :
    ServeM ε (Option String) :=
  match env.createTemp with
  | some err => return some err
  | none => do
    match ← f.openFile path with
    | .error err => return some err
    | .ok file =>
      match decoder file.reader >>= copyTemp env with
      | .error err => return some err
      | .ok tempFile => f.serveFile env w r name tempFile

def serveDecompressedBrotli (name path : Path) : ServeM ε (Option String) :=
  f.serveDecompressed env w r (fun file => .ok (env.brotli file)) name path

def serveDecompressedGzip (name path : Path) : ServeM ε (Option String) :=
  f.serveDecompressed env w r env.gzip name path

/-- The registered content type is set, and that there is a coding. -/
def setTypes (name : Path) (encoding : String) : HandlerM ε Unit := do
  let c := (env.contentTypes.get (ext name)).getD ""
  if c ≠ "" then w.setHeader "Content-Type" c
  if encoding ≠ "" then w.setHeader "Content-Encoding" encoding

def servePath (name pathInFS : Path) (encoding : String) : ServeM ε (Option String) := do
  match ← f.openFile pathInFS with
  | .error err => return some err
  | .ok file =>
    match env.fileProcessors.get (ext name) with
    | some p =>
      modify fun s => { s with processed := s.processed ++ [file.reader] }
      onExchange (p file.reader w r)
    | none =>
      onExchange (setTypes env w name encoding)
      f.serveFile env w r name file

/-- The rules for directories, which end in a slash or are found to be directories. -/
def indexed (p : Path) : Path :=
  if p = [] then bytes "index.html"
  else if p.getLast? = some slash then join [p, bytes "index.html"]
  else match f.Fsys.Stat p with
    | .ok s => if s.isDir then join [p, bytes "/index.html"] else p
    | .error _ => p

/-- The name that the path of the request stands for. -/
def requested (strs : StringTests) : Except PanicValue Path := do
  let p := r.path
  let p ← if f.UseCacheBuster then stripCacheBusterPath strs p else .ok p
  return f.indexed (if p.head? = some slash then p.tail else p)

def hidden (strs : StringTests) (p : Path) : Bool := f.Hide.any fun bl => strs.endsWith p bl

/-- The name that is looked for, unless it is not valid or hidden. -/
def resolve (strs : StringTests) : Except PanicValue (Option Path) := do
  let p ← f.requested r strs
  if !validPath p then return none
  if f.hidden strs p then return none
  return some p

/-- An error is logged, and then the file counts as not found. -/
def found (msg : String) (foundPath : Path) : Option String → ServeM ε Bool
  | none => return true
  | some err => do
    onExchange (logError msg [.attr "error" (.text err), .attr "file" (.bytes foundPath)])
    return false

def serveResolved (p : Path) : ServeM ε Bool := do
  let acceptsGzip := accepts r "gzip"
  let acceptsBr := accepts r "br"
  if acceptsBr && f.pathExists (p ++ brotliSuffix) then
    let err ← f.servePath env w r p (p ++ brotliSuffix) "br"
    found "Error serving brotli file" (p ++ brotliSuffix) err
  else if acceptsGzip && f.pathExists (p ++ gzipSuffix) then
    let err ← f.servePath env w r p (p ++ gzipSuffix) "gzip"
    found "Error serving gzip file" (p ++ gzipSuffix) err
  else if f.pathExists p then
    let err ← f.servePath env w r p p ""
    match err with
    | some err => throw (.error err)
    | none => return true
  else if f.pathExists (p ++ brotliSuffix) then
    let err ← f.serveDecompressedBrotli env w r p (p ++ brotliSuffix)
    found "Error serving brotli file" (p ++ brotliSuffix) err
  else if f.pathExists (p ++ gzipSuffix) then
    let err ← f.serveDecompressedGzip env w r p (p ++ gzipSuffix)
    found "Error serving gzip file" (p ++ gzipSuffix) err
  else return false

def serveStaticFile : ServeM ε Bool :=
  match f.resolve r env.strs with
  | .error p => throw p
  | .ok none => return false
  | .ok (some p) => f.serveResolved env w r p

def serveHTTP : ServeM ε Unit := do
  if !(← f.serveStaticFile env w r) then
    onExchange (notFound w)

end FileSystemServer

end GoraddServe.StaticFiles
