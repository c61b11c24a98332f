import QbuemStack.Base.Iteration
import QbuemStack.Http.Request

/-! The HTTP/1.1 request parser as `HttpParser::parse` runs it. Both loops are `Iteration.run` of
the loop's body. -/
namespace QbuemStack.Http

open Octets

def cr : UInt8 := 13
def lf : UInt8 := 10
def space : UInt8 := 32
def colon : UInt8 := 58

def crlf : Bytes := [cr, lf]

inductive State where
  | method | path | version | headerKey | headerValue
  | body | chunkSize | chunkData | chunkDataEnd | complete | error
  deriving DecidableEq, Repr

def MAX_BODY_SIZE : Nat := 1024 * 1024
def MAX_HEADER_SIZE : Nat := 8 * 1024

structure HttpParser where
  state : State := .method
  headersComplete : Bool := false
  chunked : Bool := false
  currentHeaderKey : StringView := {}
  bodyLength : Nat := 0
  chunkRemaining : Nat := 0
  chunkBody : Bytes := []
  errorStatus : Nat := 0
  headerBytes : Nat := 0
  deriving DecidableEq

def findHeaderEnd (data : Bytes) : Option Nat := find (crlf ++ crlf) data

def hexDigit (c : UInt8) : Option Nat :=
  if 48 ≤ c ∧ c ≤ 57 then some (c.toNat - 48)
  else if 97 ≤ c ∧ c ≤ 102 then some (c.toNat - 97 + 10)
  else if 65 ≤ c ∧ c ≤ 70 then some (c.toNat - 65 + 10)
  else none

def isDigit (c : UInt8) : Bool := 48 ≤ c ∧ c ≤ 57

def decimalValue (digits : Bytes) : Nat :=
  digits.foldl (fun value c => value * 10 + (c.toNat - 48)) 0

def fromChars (text : Bytes) : Option (Nat × Bytes) :=
  let digits := text.takeWhile isDigit
  if digits = [] then none
  else if decimalValue digits < 2 ^ 64 then
    some (decimalValue digits, text.dropWhile isDigit)
  else none

namespace HttpParser

def isComplete (p : HttpParser) : Bool := p.state = .complete

def fail (p : HttpParser) (status : Nat) : HttpParser :=
  { p with errorStatus := status, state := .error }

structure Cursor where
  parser : HttpParser
  req : Request
  pos : Nat := 0
  start : Nat := 0

abbrev Outcome := HttpParser × Request × Option Nat

/-- The guard names the other four states, so a parser resumed inside a chunk runs through this loop
too. -/
def inHead : State → Bool
  | .body | .chunkSize | .complete | .error => false
  | _ => true

def endOfHeaders (s : Cursor) : Cursor :=
  let p := { s.parser with headersComplete := true }
  let te := s.req.header (ascii "Transfer-Encoding")
  let cl := s.req.header (ascii "Content-Length")
  if te ≠ [] ∧ cl ≠ [] then { s with parser := p.fail 400 }
  else if te = ascii "chunked" then
    { s with parser := { p with chunked := true, state := .chunkSize }, start := s.pos + 1 }
  else if cl ≠ [] then
    match fromChars cl with
    | some (parsed, []) =>
      let p := { p with bodyLength := parsed }
      if parsed > MAX_BODY_SIZE then { s with parser := p.fail 413 }
      else { s with parser := { p with state := .body }, start := s.pos + 1 }
    | _ => { s with parser := p.fail 400 }
  else { s with parser := { p with state := .complete } }

def methodByte (data : Bytes) (c : UInt8) (s : Cursor) : Cursor :=
  if c = space then
    { parser := { s.parser with state := .path }
      req := s.req.setMethod (stringToMethod (slice data s.start (s.pos - s.start)))
      pos := s.pos
      start := s.pos + 1 }
  else s

def pathByte (data : Bytes) (c : UInt8) (s : Cursor) : Cursor :=
  if c = space then
    { parser := { s.parser with state := .version }
      req := s.req.setPath (substr data s.start (s.pos - s.start))
      pos := s.pos
      start := s.pos + 1 }
  else s

def versionByte (c : UInt8) (s : Cursor) : Cursor :=
  if c = lf then { s with parser := { s.parser with state := .headerKey }, start := s.pos + 1 }
  else s

def headerKeyByte (data : Bytes) (c : UInt8) (s : Cursor) : Cursor :=
  if c = colon then
    let key := substr data s.start (s.pos - s.start)
    let p := { s.parser with currentHeaderKey := key, state := .headerValue }
    if data[s.pos + 1]? = some space then
      { s with parser := p, pos := s.pos + 1, start := s.pos + 2 }
    else { s with parser := p, start := s.pos + 1 }
  else if c = lf then endOfHeaders s
  else
    let p := { s.parser with headerBytes := s.parser.headerBytes + 1 }
    if p.headerBytes > MAX_HEADER_SIZE then { s with parser := p.fail 400 }
    else { s with parser := p }

/-- `pos - start - 1` is a `size_t`: with nothing before the line feed it wraps. -/
def valueLength (data : Bytes) (s : Cursor) : Nat :=
  if s.pos = s.start then data.length else s.pos - s.start - 1

def headerValueByte (data : Bytes) (c : UInt8) (s : Cursor) : Cursor :=
  if c = cr then s
  else if c = lf then
    let value := substr data s.start (valueLength data s)
    if cr ∈ value.bytes ∨ lf ∈ value.bytes then { s with parser := s.parser.fail 400 }
    else
      let p := { s.parser with
        headerBytes := s.parser.headerBytes +
          (s.parser.currentHeaderKey.bytes.length + value.bytes.length + 4) }
      if p.headerBytes > MAX_HEADER_SIZE then { s with parser := p.fail 400 }
      else
        { parser := { p with state := .headerKey }
          req := s.req.addHeader p.currentHeaderKey value
          pos := s.pos
          start := s.pos + 1 }
  else s

def onByte (data : Bytes) (c : UInt8) (s : Cursor) : Cursor :=
  let s := match s.parser.state with
    | .method => methodByte data c s
    | .path => pathByte data c s
    | .version => versionByte c s
    | .headerKey => headerKeyByte data c s
    | .headerValue => headerValueByte data c s
    | _ => s
  { s with pos := s.pos + 1 }

def headBody (data : Bytes) (s : Cursor) : Cursor ⊕ Cursor :=
  match data[s.pos]? with
  | some c => if inHead s.parser.state then .inr (onByte data c s) else .inl s
  | none => .inl s

def headLoop (data : Bytes) (s : Cursor) : Cursor :=
  (Iteration.run (headBody data) (data.length + 1) s).getD s

def fixedBody (data : Bytes) (s : Cursor) : Outcome :=
  if data.length - s.start < s.parser.bodyLength then (s.parser, s.req, some s.start)
  else
    ({ s.parser with state := .complete },
      s.req.setBody (substr data s.start s.parser.bodyLength),
      some (s.start + s.parser.bodyLength))

def chunkSizeOf : Nat → Bytes → Except Nat Nat
  | size, [] => .ok size
  | size, c :: rest =>
    match hexDigit c with
    | none => .error 400
    | some d =>
      if size * 16 + d > MAX_BODY_SIZE then .error 413 else chunkSizeOf (size * 16 + d) rest

def sizeToken (line : Bytes) : Bytes :=
  match find (ascii ";") line with
  | some ext => line.take ext
  | none => line

def lastChunk (data : Bytes) (p : HttpParser) (req : Request) (pos : Nat) : Outcome :=
  match findFrom crlf data pos with
  | none => (p, req, some pos)
  | some trailerEnd =>
    ({ p with state := .complete },
      req.setBody { backing := .chunkBody, bytes := p.chunkBody }, some (trailerEnd + 2))

def chunkSizeLine (data : Bytes) (s : Cursor) (eol : Nat) : Outcome ⊕ Cursor :=
  match chunkSizeOf 0 (sizeToken (slice data s.pos (eol - s.pos))) with
  | .error status => .inl (s.parser.fail status, s.req, none)
  | .ok size =>
    let p := { s.parser with chunkRemaining := size }
    if size = 0 then .inl (lastChunk data p s.req (eol + 2))
    else if p.chunkBody.length + size > MAX_BODY_SIZE then .inl (p.fail 413, s.req, none)
    else .inr { s with parser := { p with state := .chunkData }, pos := eol + 2 }

def chunkSizeRound (data : Bytes) (s : Cursor) : Outcome ⊕ Cursor :=
  match findFrom crlf data s.pos with
  | none => .inl (s.parser, s.req, some s.pos)
  | some eol => chunkSizeLine data s eol

def chunkDataRound (data : Bytes) (s : Cursor) : Outcome ⊕ Cursor :=
  let avail := data.length - s.pos
  let p := s.parser
  if avail < p.chunkRemaining then
    .inl ({ p with
      chunkBody := p.chunkBody ++ slice data s.pos avail
      chunkRemaining := p.chunkRemaining - avail }, s.req, some (s.pos + avail))
  else
    .inr { s with
      parser := { p with
        chunkBody := p.chunkBody ++ slice data s.pos p.chunkRemaining
        chunkRemaining := 0
        state := .chunkDataEnd }
      pos := s.pos + p.chunkRemaining }

def chunkDataEndRound (data : Bytes) (s : Cursor) : Outcome ⊕ Cursor :=
  if s.pos + 2 > data.length then .inl (s.parser, s.req, some s.pos)
  else if slice data s.pos 2 ≠ crlf then .inl (s.parser.fail 400, s.req, none)
  else .inr { s with parser := { s.parser with state := .chunkSize }, pos := s.pos + 2 }

def chunkRound (data : Bytes) (s : Cursor) : Outcome ⊕ Cursor :=
  match s.parser.state with
  | .chunkSize => chunkSizeRound data s
  | .chunkData => chunkDataRound data s
  | .chunkDataEnd => chunkDataEndRound data s
  | _ => .inl (s.parser, s.req, some s.pos)

def chunkLoop (data : Bytes) (s : Cursor) : Outcome :=
  (Iteration.run (chunkRound data) (2 * data.length + 2) s).getD (s.parser, s.req, some s.pos)

def bodyPhase (data : Bytes) (s : Cursor) : Outcome :=
  match s.parser.state with
  | .error => (s.parser, s.req, none)
  | .complete => (s.parser, s.req, some s.pos)
  | .body => fixedBody data s
  | .chunkSize | .chunkData | .chunkDataEnd => chunkLoop data s
  | _ => (s.parser, s.req, some s.pos)

def awaitsHeaderEnd (p : HttpParser) : Bool := !p.headersComplete && inHead p.state

def parse (p : HttpParser) (data : Bytes) (req : Request) : Outcome :=
  if p.awaitsHeaderEnd then
    match findHeaderEnd data with
    | none =>
      let p := { p with headerBytes := p.headerBytes + data.length }
      if p.headerBytes > MAX_HEADER_SIZE then (p.fail 400, req, none)
      else (p, req, some data.length)
    | some _ =>
      bodyPhase data (headLoop data { parser := { p with headerBytes := 0 }, req := req })
  else bodyPhase data (headLoop data { parser := p, req := req })

end HttpParser

end QbuemStack.Http
