import QbuemStack.Base.Radix
import QbuemStack.Http.Parser

/-! The response builder: the four ways of giving a body, the streaming calls, and the header
section put on the wire. -/
namespace QbuemStack.Http

open Octets Numerals

structure HeaderMap where
  entries : List (Bytes × Bytes)
  nodup : (entries.map Prod.fst).Nodup
  deriving DecidableEq

namespace HeaderMap

def empty : HeaderMap := ⟨[], List.nodup_nil⟩

def find (m : HeaderMap) (key : Bytes) : Option Bytes :=
  (m.entries.find? fun e => e.1 = key).map Prod.snd

def set (m : HeaderMap) (key value : Bytes) : HeaderMap :=
  if hIn : key ∈ m.entries.map Prod.fst then
    ⟨m.entries.map fun e => if e.1 = key then (key, value) else e, by
      have hKeys : (m.entries.map fun e => if e.1 = key then (key, value) else e).map Prod.fst =
          m.entries.map Prod.fst := by
        rw [List.map_map]
        apply List.map_congr_left
        intro e _
        by_cases h : e.1 = key <;> simp [h]
      rw [hKeys]
      exact m.nodup⟩
  else
    ⟨m.entries ++ [(key, value)], by
      rw [List.map_append, List.nodup_append]
      refine ⟨m.nodup, by simp, ?_⟩
      intro a ha b hb hEq
      have hKey : b = key := by simpa using hb
      rw [hEq, hKey] at ha
      exact hIn ha⟩

def erase (m : HeaderMap) (key : Bytes) : HeaderMap :=
  ⟨m.entries.filter fun e => e.1 ≠ key,
    m.nodup.sublist (List.filter_sublist.map Prod.fst)⟩

theorem mem_set {m : HeaderMap} {key value : Bytes} {e : Bytes × Bytes} :
    e ∈ (m.set key value).entries ↔ e = (key, value) ∨ e ∈ m.entries ∧ e.1 ≠ key := by
  unfold set
  split_ifs with hIn
  · obtain ⟨old, hOld, hKey⟩ := List.mem_map.mp hIn
    simp only [List.mem_map]
    constructor
    · rintro ⟨a, ha, rfl⟩
      by_cases h : a.1 = key
      · exact .inl (by simp [h])
      · exact .inr (by simp [h, ha])
    · rintro (rfl | ⟨he, hNe⟩)
      · exact ⟨old, hOld, by simp [hKey]⟩
      · exact ⟨e, he, by simp [hNe]⟩
  · simp only [List.mem_append, List.mem_singleton]
    constructor
    · rintro (he | rfl)
      · exact .inr ⟨he, fun h => hIn (h ▸ List.mem_map_of_mem he)⟩
      · exact .inl rfl
    · rintro (rfl | ⟨he, -⟩)
      · exact .inr rfl
      · exact .inl he

theorem find_eq_some_iff {m : HeaderMap} {key value : Bytes} : m.find key = some value ↔ (key, value) ∈ m.entries := by
  unfold find
  constructor
  · intro hFind
    obtain ⟨e, he, rfl⟩ := Option.map_eq_some_iff.mp hFind
    have hKey : e.1 = key := by simpa using List.find?_some he
    rw [← hKey]
    exact List.mem_of_find?_eq_some he
  · intro hIn
    cases hFind : m.entries.find? fun e => e.1 = key with
    | none =>
      have hNone := List.find?_eq_none.mp hFind (key, value) hIn
      simp at hNone
    | some e =>
      have hKey : e.1 = key := by simpa using List.find?_some hFind
      have hSame := List.inj_on_of_nodup_map m.nodup (List.mem_of_find?_eq_some hFind) hIn hKey
      rw [hSame]
      rfl

theorem find_set (m : HeaderMap) (key value other : Bytes) :
    (m.set key value).find other = if other = key then some value else m.find other := by
  apply Option.ext
  intro v
  rw [find_eq_some_iff, mem_set]
  split_ifs with hKey
  · simp [hKey, eq_comm]
  · rw [find_eq_some_iff]
    simp [hKey]

end HeaderMap

structure MapOrder where
  visit : List (Bytes × Bytes) → List (Bytes × Bytes)
  perm : ∀ entries, (visit entries).Perm entries

theorem perm_insertion (entries : List (Bytes × Bytes)) : (id entries).Perm entries := .refl entries

def MapOrder.insertion : MapOrder := ⟨id, perm_insertion⟩

structure CookieOptions where
  path : Bytes := ascii "/"
  domain : Bytes := []
  sameSite : Bytes := []
  maxAge : Int := -1
  httpOnly : Bool := false
  secure : Bool := false

def toStringInt : Int → Bytes
  | .ofNat n => render 10 n
  | .negSucc n => ascii "-" ++ render 10 (n + 1)

structure Response where
  statusCode : Int := 200
  headers : HeaderMap := .empty
  cookies : List Bytes := []
  body : Bytes := []
  sendfilePath : Bytes := []
  sendfileSize : Nat := 0
  chunked : Bool := false
  chunkBuf : Bytes := []
  streamOpen : Bool := false
  headerSent : Bool := false
  streamed : Bool := false
  trailers : List (Bytes × Bytes) := []

namespace Response

def status (r : Response) (code : Int) : Response := { r with statusCode := code }

def header (r : Response) (key value : Bytes) : Response :=
  { r with headers := r.headers.set key value }

def setBody (r : Response) (b : Bytes) : Response := { r with body := b }

def getHeader (r : Response) (key : Bytes) : Bytes := (r.headers.find key).getD []

def encodeChunk (data : Bytes) : Bytes := render 16 data.length ++ crlf ++ data ++ crlf

def chunk (r : Response) (data : Bytes) : Response :=
  if data = [] then r else { r with chunkBuf := r.chunkBuf ++ encodeChunk data }

def endChunks (r : Response) : Response :=
  { r with chunkBuf := r.chunkBuf ++ ascii "0\r\n", chunked := true }

def trailer (r : Response) (key value : Bytes) : Response :=
  if r.chunked then
    let names := match r.headers.find (ascii "Trailer") with
      | none => key
      | some names => names ++ ascii ", " ++ key
    { r with
      headers := r.headers.set (ascii "Trailer") names
      trailers := r.trailers ++ [(key, value)] }
  else r

def encodeLine (field : Bytes × Bytes) : Bytes := field.1 ++ ascii ": " ++ field.2 ++ crlf

def encodeTrailers (r : Response) : Bytes :=
  if r.trailers = [] then crlf else r.trailers.flatMap encodeLine ++ crlf

def cookieText (name value : Bytes) (opts : CookieOptions) : Bytes :=
  name ++ ascii "=" ++ value ++
    (if opts.path ≠ [] then ascii "; Path=" ++ opts.path else []) ++
    (if opts.domain ≠ [] then ascii "; Domain=" ++ opts.domain else []) ++
    (if 0 ≤ opts.maxAge then ascii "; Max-Age=" ++ toStringInt opts.maxAge else []) ++
    (if opts.sameSite ≠ [] then ascii "; SameSite=" ++ opts.sameSite else []) ++
    (if opts.secure then ascii "; Secure" else []) ++
    (if opts.httpOnly then ascii "; HttpOnly" else [])

def setCookie (r : Response) (name value : Bytes) (opts : CookieOptions) : Response :=
  { r with cookies := r.cookies ++ [cookieText name value opts] }

def setSendfilePath (r : Response) (path : Bytes) (size : Nat) : Response :=
  { r with sendfilePath := path, sendfileSize := size }

def hasSendfile (r : Response) : Bool := r.sendfilePath ≠ []

def reasonPhrases : List (Int × Bytes) :=
  [(200, ascii "OK"), (201, ascii "Created"), (204, ascii "No Content"),
    (206, ascii "Partial Content"), (301, ascii "Moved Permanently"), (302, ascii "Found"),
    (304, ascii "Not Modified"), (400, ascii "Bad Request"), (401, ascii "Unauthorized"),
    (403, ascii "Forbidden"), (404, ascii "Not Found"), (405, ascii "Method Not Allowed"),
    (408, ascii "Request Timeout"), (429, ascii "Too Many Requests"),
    (500, ascii "Internal Server Error"), (502, ascii "Bad Gateway"),
    (503, ascii "Service Unavailable")]

def statusToString (code : Int) : Bytes :=
  match reasonPhrases.find? fun p => p.1 = code with
  | some p => p.2
  | none => ascii "Unknown"

def statusLine (r : Response) : Bytes :=
  ascii "HTTP/1.1 " ++ toStringInt r.statusCode ++ ascii " " ++ statusToString r.statusCode

def contentLength (r : Response) : Nat :=
  if r.sendfilePath = [] then r.body.length else r.sendfileSize

def framingField (r : Response) : Bytes × Bytes :=
  if r.chunked then (ascii "Transfer-Encoding", ascii "chunked")
  else (ascii "Content-Length", render 10 r.contentLength)

def wireFields (order : MapOrder) (r : Response) : List (Bytes × Bytes) :=
  order.visit r.headers.entries ++ r.cookies.map (fun c => (ascii "Set-Cookie", c)) ++ [r.framingField]

def serializeHeader (order : MapOrder) (r : Response) : Bytes :=
  r.statusLine ++ crlf ++ (r.wireFields order).flatMap encodeLine ++ crlf

def serialize (order : MapOrder) (r : Response) : Bytes := r.serializeHeader order ++ r.body

def streamHead (order : MapOrder) (r : Response) : Response × Bytes :=
  if r.headerSent then (r, [])
  else
    let r := { r with chunked := true }
    ({ r with headerSent := true, streamed := true }, r.serializeHeader order)

def flush (order : MapOrder) (r : Response) : Response × Bytes :=
  if r.streamOpen then
    let (r, head) := r.streamHead order
    ({ r with chunkBuf := [] }, head ++ r.chunkBuf)
  else (r, [])

def flushEnd (order : MapOrder) (r : Response) : Response × Bytes :=
  if r.streamOpen then
    let (r, head) := r.streamHead order
    ({ r with chunkBuf := [], streamOpen := false }, head ++ r.chunkBuf ++ ascii "0\r\n\r\n")
  else (r, [])

end Response

end QbuemStack.Http
