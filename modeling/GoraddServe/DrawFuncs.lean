import GoraddServe.ServerHandlers

/-!
# Pages that are drawn

`RegisterDrawFunc` makes a handler of a function that writes a page and returns an error. The
handler panics with the error, so behind the buffer a page is sent whole or not at all.
-/
namespace GoraddServe.DrawFuncs
open GoMaps GoPaths Panics ResponseWriters BufferedOutput BufferedCalls ErrorHandler ErrorResponses
  ServerHandlers

variable {ε : Type}

/-- The function returns the text of its error. -/
abbrev DrawFunc (ε : Type) := Writer → HttpRequest → HandlerM ε (Option String)

/-- `path.Base(p)` -/
def base (p : Path) : Path :=
  if p = [] then [dot]
  else
    let name := (p.rdropWhile (· = slash)).rtakeWhile (· ≠ slash)
    if name = [] then [slash] else name

/-- The content type goes by the extension; `typeByExtension` is that of package mime. -/
def setContentType (typeByExtension : Path → String) (w : Writer) (r : HttpRequest) :
    HandlerM ε Unit := do
  let ctype := typeByExtension (ext (base r.route.url.path))
  if ctype ≠ "" then w.setHeader "Content-Type" ctype

def drawHandler (typeByExtension : Path → String) (f : DrawFunc ε) : HttpHandler ε := fun w r => do
  setContentType typeByExtension w r
  match ← f w r with
  | none => return
  | some err => throw (.error err)

def registerDrawFunc (isValidWildcardName : Path → Bool) (proxyPath : Path)
    (typeByExtension : Path → String) (reg : Muxers.Registry (HttpHandler ε)) (pattern : Path)
    (f : DrawFunc ε) : Option (Muxers.Registry (HttpHandler ε)) :=
  Muxers.registerAppHandler isValidWildcardName proxyPath reg pattern
    (drawHandler typeByExtension f)

section Drawing

variable {typeByExtension : Path → String} {w : Writer} {r : HttpRequest} {x y z : Exchange ε}
  {f : DrawFunc ε} {cs : List Call} {result : Except PanicValue (Option String)}

end Drawing

end GoraddServe.DrawFuncs
