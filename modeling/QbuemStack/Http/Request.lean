import QbuemStack.Base.Octets

/-! The request value type. A `string_view` member is kept as the place it points at together with
the bytes it denoted when it was taken. -/
namespace QbuemStack.Http

open Octets

inductive Method where
  | get | post | put | delete | patch | options | head | unknown
  deriving DecidableEq, Repr

def stringToMethod (m : Bytes) : Method :=
  if m = ascii "GET" then .get
  else if m = ascii "POST" then .post
  else if m = ascii "PUT" then .put
  else if m = ascii "DELETE" then .delete
  else if m = ascii "PATCH" then .patch
  else if m = ascii "OPTIONS" then .options
  else if m = ascii "HEAD" then .head
  else .unknown

inductive Backing where
  | input | chunkBody
  deriving DecidableEq, Repr

structure StringView where
  backing : Backing := .input
  off : Nat := 0
  bytes : Bytes := []
  deriving DecidableEq, Repr

def substr (data : Bytes) (start count : Nat) : StringView :=
  { off := start, bytes := slice data start count }

/-- What the view denotes once the storage behind the input has become `storage`. -/
def StringView.reread (storage : Bytes) (v : StringView) : StringView :=
  match v.backing with
  | .input => { v with bytes := slice storage v.off v.bytes.length }
  | .chunkBody => v

structure InlineArray (cap : Nat) (α : Type) where
  entries : List α := []
  fits : entries.length ≤ cap := by decide
  deriving DecidableEq

namespace InlineArray

variable {cap : Nat} {α β : Type}

def empty : InlineArray cap α := ⟨[], Nat.zero_le _⟩

def push (a : InlineArray cap α) (x : α) : InlineArray cap α :=
  if h : a.entries.length < cap then
    ⟨a.entries ++ [x], by rw [List.length_append]; exact h⟩
  else a

def map (f : α → β) (a : InlineArray cap α) : InlineArray cap β :=
  ⟨a.entries.map f, by rw [List.length_map]; exact a.fits⟩

/-- Pushing keeps the first `cap` elements of everything ever pushed. -/
theorem entries_push (a : InlineArray cap α) (x : α) : (a.push x).entries = (a.entries ++ [x]).take cap := by
  unfold push
  split_ifs with h
  · rw [List.take_of_length_le]
    rw [List.length_append]
    exact h
  · have hFull : a.entries.length = cap := le_antisymm a.fits (not_lt.mp h)
    rw [List.take_append_of_le_length hFull.ge, List.take_of_length_le a.fits]

end InlineArray

def kMaxInlineHeaders : Nat := 32
def kMaxInlineParams : Nat := 16

structure Request where
  method : Method := .unknown
  path : StringView := {}
  queryString : StringView := {}
  body : StringView := {}
  remoteAddr : Bytes := []
  headersFlat : InlineArray kMaxInlineHeaders (StringView × StringView) := .empty
  paramsFlat : InlineArray kMaxInlineParams (Bytes × Bytes) := .empty
  deriving DecidableEq

namespace Request

def header (req : Request) (key : Bytes) : Bytes :=
  match req.headersFlat.entries.find? fun h => h.1.bytes = key with
  | some h => h.2.bytes
  | none => []

def param (req : Request) (key : Bytes) : Bytes :=
  match req.paramsFlat.entries.find? fun h => h.1 = key with
  | some h => h.2
  | none => []

def setMethod (req : Request) (m : Method) : Request := { req with method := m }

def setPath (req : Request) (raw : StringView) : Request :=
  match find (ascii "?") raw.bytes with
  | none => { req with path := raw, queryString := {} }
  | some q =>
    { req with
      path := { raw with bytes := raw.bytes.take q }
      queryString := { raw with off := raw.off + (q + 1), bytes := raw.bytes.drop (q + 1) } }

def setBody (req : Request) (b : StringView) : Request := { req with body := b }

def addHeader (req : Request) (key value : StringView) : Request :=
  { req with headersFlat := req.headersFlat.push (key, value) }

def setParam (req : Request) (key value : Bytes) : Request :=
  { req with paramsFlat := req.paramsFlat.push (key, value) }

def setRemoteAddr (req : Request) (addr : Bytes) : Request := { req with remoteAddr := addr }

def reread (storage : Bytes) (req : Request) : Request :=
  { req with
    path := req.path.reread storage
    queryString := req.queryString.reread storage
    body := req.body.reread storage
    headersFlat := req.headersFlat.map fun h => (h.1.reread storage, h.2.reread storage) }

def headerLines (req : Request) : List (Bytes × Bytes) :=
  req.headersFlat.entries.map fun h => (h.1.bytes, h.2.bytes)

end Request

end QbuemStack.Http
