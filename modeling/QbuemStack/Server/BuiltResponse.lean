import QbuemStack.Http.ClientReader
import QbuemStack.Server.SendResponse

/-! The calls an application makes on a response, and what they keep true of it. -/
namespace QbuemStack.Server

open Octets Numerals Http

inductive BuildOp where
  | status (code : Int)
  | header (key value : Bytes)
  | setCookie (name value : Bytes) (opts : CookieOptions)
  | body (b : Bytes)
  | chunk (data : Bytes)
  | endChunks
  | trailer (key value : Bytes)
  | sendfilePath (path : Bytes) (size : Nat)

def BuildOp.apply (r : Response) : BuildOp → Response
  | .status code => r.status code
  | .header key value => r.header key value
  | .setCookie name value opts => r.setCookie name value opts
  | .body b => r.setBody b
  | .chunk data => r.chunk data
  | .endChunks => r.endChunks
  | .trailer key value => r.trailer key value
  | .sendfilePath path size => r.setSendfilePath path size

def build (r : Response) (ops : List BuildOp) : Response := ops.foldl BuildOp.apply r

def chunkCalls (ops : List BuildOp) : List Bytes :=
  ops.filterMap fun op => match op with
    | .chunk data => if data = [] then none else some data
    | _ => none

def trailerCalls (ops : List BuildOp) : List (Bytes × Bytes) :=
  ops.filterMap fun op => match op with
    | .trailer key value => some (key, value)
    | _ => none

def isTokenByte (c : UInt8) : Bool :=
  c ∈ ascii "!#$%&'*+-.^_`|~" ∨ isDigit c ∨ 65 ≤ c ∧ c ≤ 90 ∨ 97 ≤ c ∧ c ≤ 122

structure PlainName (name : Bytes) : Prop where
  nonempty : name ≠ []
  token : ∀ c ∈ name, isTokenByte c = true
  not_te : sameName (ascii "Transfer-Encoding") name = false
  not_cl : sameName (ascii "Content-Length") name = false

theorem plainName_iff (name : Bytes) : PlainName name ↔ name ≠ [] ∧ name.all isTokenByte = true ∧
      sameName (ascii "Transfer-Encoding") name = false ∧ sameName (ascii "Content-Length") name = false :=
  ⟨fun h => ⟨h.nonempty, List.all_eq_true.mpr h.token, h.not_te, h.not_cl⟩,
    fun h => ⟨h.1, List.all_eq_true.mp h.2.1, h.2.2.1, h.2.2.2⟩⟩

instance (name : Bytes) : Decidable (PlainName name) :=
  decidable_of_iff _ (plainName_iff name).symm

def PlainField (field : Bytes × Bytes) : Prop := PlainName field.1 ∧ lf ∉ field.2

def BuildOp.Permitted (fs : FileSystem) : BuildOp → Prop
  | .header key value =>
    PlainField (key, value) ∧ cr ∉ value ∧ sameName (ascii "Connection") key = false
  | .trailer key value => PlainField (key, value) ∧ cr ∉ value
  | .setCookie name value opts =>
    cr ∉ Response.cookieText name value opts ∧ lf ∉ Response.cookieText name value opts
  | .sendfilePath path size =>
    path ≠ [] → ∃ contents, fs path = some contents ∧ contents.length = size
  | _ => True

def BuildOp.isChunking : BuildOp → Bool
  | .chunk _ | .endChunks => true
  | _ => false

inductive ChunksClosed : List BuildOp → Prop where
  | none {ops : List BuildOp} (h : ∀ op ∈ ops, op.isChunking = false) : ChunksClosed ops
  | closed {before after : List BuildOp} (hBefore : .endChunks ∉ before)
      (hAfter : ∀ op ∈ after, op.isChunking = false) :
      ChunksClosed (before ++ .endChunks :: after)

structure Sound (fs : FileSystem) (r : Response) : Prop where
  headers : ∀ e ∈ r.headers.entries, PlainField e
  cookies : ∀ c ∈ r.cookies, lf ∉ c
  trailers : ∀ t ∈ r.trailers, PlainField t
  file : r.sendfilePath ≠ [] →
    ∃ contents, fs r.sendfilePath = some contents ∧ contents.length = r.sendfileSize

theorem sound_empty (fs : FileSystem) : Sound fs {} :=
  ⟨by simp [HeaderMap.empty], by simp, by simp, by simp⟩

theorem Sound.keep {fs : FileSystem} {r : Response} (h : Sound fs r) {code : Int} {body buf : Bytes}
    {chunked streamOpen headerSent streamed : Bool} : Sound fs { r with
      statusCode := code, body := body, chunked := chunked, chunkBuf := buf, streamOpen := streamOpen,
      headerSent := headerSent, streamed := streamed } :=
  { h with }

theorem PlainName.notMem {name : Bytes} (h : PlainName name) : colon ∉ name ∧ lf ∉ name := by
  constructor
  · exact fun hIn => absurd (h.token colon hIn) (by decide)
  · exact fun hIn => absurd (h.token lf hIn) (by decide)

theorem PlainField.writable {field : Bytes × Bytes} (h : PlainField field) : Writable field :=
  ⟨h.1.notMem.1, h.1.notMem.2, h.2⟩

variable {fs : FileSystem} {r : Response} {ops : List BuildOp}

theorem Sound.header (h : Sound fs r) {key value : Bytes} (hField : PlainField (key, value)) :
    Sound fs (r.header key value) := by
  refine { h with headers := ?_ }
  intro e he
  rcases HeaderMap.mem_set.mp he with rfl | ⟨hOld, -⟩
  · exact hField
  · exact h.headers e hOld

theorem Sound.trailer (h : Sound fs r) {key value : Bytes} (hField : PlainField (key, value)) :
    Sound fs (r.trailer key value) := by
  unfold Response.trailer
  split_ifs with hChunked
  · have hName : PlainName (ascii "Trailer") := by decide +kernel
    have hTrailers : ∀ t ∈ r.trailers ++ [(key, value)], PlainField t :=
      List.forall_mem_append.mpr ⟨h.trailers, List.forall_mem_singleton.mpr hField⟩
    cases hFind : r.headers.find (ascii "Trailer") with
    | none =>
      have hHeader := h.header ⟨hName, hField.1.notMem.2⟩
      exact ⟨hHeader.headers, h.cookies, hTrailers, h.file⟩
    | some names =>
      obtain ⟨e, he, rfl⟩ := Option.map_eq_some_iff.mp hFind
      have hOld := (h.headers e (List.mem_of_find?_eq_some he)).2
      have hComma : lf ∉ ascii ", " := by decide
      have hValue : lf ∉ e.2 ++ ascii ", " ++ key := by simp [hOld, hComma, hField.1.notMem.2]
      have hHeader := h.header ⟨hName, hValue⟩
      exact ⟨hHeader.headers, h.cookies, hTrailers, h.file⟩
  · exact h

theorem Sound.apply {op : BuildOp} (h : Sound fs r) (hOp : op.Permitted fs) : Sound fs (op.apply r) := by
  cases op with
  | status code | body b | endChunks => exact h.keep
  | header key value => exact h.header hOp.1
  | setCookie name value opts =>
    refine { h with cookies := ?_ }
    exact List.forall_mem_append.mpr ⟨h.cookies, List.forall_mem_singleton.mpr hOp.2⟩
  | chunk data =>
    simp only [BuildOp.apply, Response.chunk]
    split_ifs
    · exact h
    · exact h.keep
  | trailer key value => exact h.trailer hOp.1
  | sendfilePath path size => exact { h with file := hOp }

theorem Sound.build (h : Sound fs r) (hOps : ∀ op ∈ ops, op.Permitted fs) : Sound fs (build r ops) := by
  induction ops generalizing r with
  | nil => exact h
  | cons op ops ih =>
    exact ih (h.apply (hOps op List.mem_cons_self)) fun o ho => hOps o (List.mem_cons_of_mem _ ho)

/-- Calls other than `end_chunks` collect chunks, and trailers once the response is chunked. -/
theorem build_before (r : Response) (ops : List BuildOp) (h : .endChunks ∉ ops) : (build r ops).chunked = r.chunked ∧
    (build r ops).chunkBuf = r.chunkBuf ++ (chunkCalls ops).flatMap Response.encodeChunk ∧
    (build r ops).trailers = r.trailers ++ (if r.chunked then trailerCalls ops else []) ∧
    (build r ops).streamed = r.streamed := by
  induction ops generalizing r with
  | nil => simp [build, chunkCalls, trailerCalls]
  | cons op ops ih =>
    have hRest := ih (op.apply r) fun hIn => h (List.mem_cons_of_mem _ hIn)
    rw [build, List.foldl_cons]
    rw [build] at hRest
    obtain ⟨hChunked, hBuf, hTrailers, hStreamed⟩ := hRest
    rw [hChunked, hBuf, hTrailers, hStreamed]
    cases op with
    | endChunks => exact absurd List.mem_cons_self h
    | chunk data =>
      by_cases hData : data = [] <;>
        simp [BuildOp.apply, Response.chunk, chunkCalls, trailerCalls, hData]
    | trailer key value =>
      cases hFlag : r.chunked <;>
        simp [BuildOp.apply, Response.trailer, chunkCalls, trailerCalls, hFlag]
    | status code | header key value | setCookie name value opts | body b | sendfilePath path size =>
      exact ⟨rfl, rfl, rfl, rfl⟩

theorem chunkCalls_quiet (h : ∀ op ∈ ops, op.isChunking = false) : chunkCalls ops = [] ∧ .endChunks ∉ ops := by
  constructor
  · apply List.filterMap_eq_nil_iff.mpr
    intro op hop
    have hQuiet := h op hop
    cases op with
    | chunk data => cases hQuiet
    | _ => rfl
  · intro hIn
    cases h _ hIn

theorem build_chunks (h : ChunksClosed ops) : (build {} ops).streamed = false ∧
    ((build {} ops).chunked = false ∧ (build {} ops).trailers = [] ∨ (build {} ops).chunked = true ∧
        (build {} ops).chunkBuf = (chunkCalls ops).flatMap Response.encodeChunk ++ ascii "0\r\n" ∧
        ∃ dropped, trailerCalls ops = dropped ++ (build {} ops).trailers) := by
  cases h with
  | none hQuiet =>
    obtain ⟨hChunked, -, hTrailers, hStreamed⟩ := build_before {} ops (chunkCalls_quiet hQuiet).2
    exact ⟨hStreamed, .inl ⟨hChunked, by simpa using hTrailers⟩⟩
  | @closed before after hBefore hAfter =>
    obtain ⟨hNone, hOnce⟩ := chunkCalls_quiet hAfter
    obtain ⟨hChunked, hBuf, hTrailers, hStreamed⟩ := build_before {} before hBefore
    obtain ⟨hChunked', hBuf', hTrailers', hStreamed'⟩ :=
      build_before (build {} before).endChunks after hOnce
    have hFold : build {} (before ++ .endChunks :: after) =
        build (build {} before).endChunks after := by
      simp [build, BuildOp.apply]
    rw [hFold]
    refine ⟨hStreamed'.trans hStreamed, .inr ⟨hChunked', ?_, trailerCalls before, ?_⟩⟩
    · have hCalls : chunkCalls (before ++ .endChunks :: after) = chunkCalls before := by
        simp only [chunkCalls, List.filterMap_append, List.filterMap_cons] at hNone ⊢
        rw [hNone, List.append_nil]
      rw [hBuf', hNone, hCalls]
      simp [Response.endChunks, hBuf]
    · rw [hTrailers']
      simp [Response.endChunks, hTrailers, trailerCalls]

end QbuemStack.Server
