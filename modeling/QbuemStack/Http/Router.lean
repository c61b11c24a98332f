import QbuemStack.Http.Response

/-! Route matching: one tree of characters per method, with parameter segments, and a list of prefix
routes behind it. -/
namespace QbuemStack.Http

open Octets

abbrev Params := HeaderMap

def slash : UInt8 := 47

mutual

inductive Node (H : Type) where
  | mk (children : Children H) (param : ParamChild H) (handler : Option H)

inductive Children (H : Type) where
  | nil
  | cons (c : UInt8) (node : Node H) (rest : Children H)

inductive ParamChild (H : Type) where
  | none
  | some (name : Bytes) (node : Node H)

end

section Tree

variable {H : Type}

def Node.empty : Node H := .mk .nil .none none

def signedChar (c : UInt8) : Int := if c.toNat < 128 then c.toNat else (c.toNat : Int) - 256

def Children.update (c : UInt8) (f : Node H → Node H) : Children H → Children H
  | .nil => .cons c (f .empty) .nil
  | .cons k node rest =>
    if k = c then .cons k (f node) rest
    else if signedChar c < signedChar k then .cons c (f .empty) (.cons k node rest)
    else .cons k node (rest.update c f)

def ParamChild.update (name : Bytes) (f : Node H → Node H) : ParamChild H → ParamChild H
  | .none => .some name (f .empty)
  | .some old node => .some old (f node)

inductive Segment where
  | char (c : UInt8)
  | param (name : Bytes)
  deriving DecidableEq

def segments : Option Bytes → Bytes → List Segment
  | none, [] => []
  | some name, [] => [.param name]
  | none, c :: rest =>
    if c = colon then segments (some []) rest else .char c :: segments none rest
  | some name, c :: rest =>
    if c = slash then .param name :: .char c :: segments none rest
    else segments (some (name ++ [c])) rest

def Node.insert : List Segment → H → Node H → Node H
  | [], h, .mk children param _ => .mk children param (some h)
  | .char c :: segs, h, .mk children param handler =>
    .mk (children.update c (Node.insert segs h)) param handler
  | .param name :: segs, h, .mk children param handler =>
    .mk children (param.update name (Node.insert segs h)) handler

mutual

def Node.search : Node H → Bytes → Params → Option H × Params
  | .mk _ _ handler, [], params => (handler, params)
  | .mk children param _, c :: rest, params =>
    match children.search c rest params with
    | (some h, params) => (some h, params)
    | (none, params) => param.search (c :: rest) params

def Children.search : Children H → UInt8 → Bytes → Params → Option H × Params
  | .nil, _, _, params => (none, params)
  | .cons k node more, c, rest, params =>
    if k = c then node.search rest params else more.search c rest params

def ParamChild.search : ParamChild H → Bytes → Params → Option H × Params
  | .none, _, params => (none, params)
  | .some name node, path, params =>
    match node.search (path.dropWhile (· ≠ slash)) (params.set name (path.takeWhile (· ≠ slash))) with
    | (some h, params) => (some h, params)
    | (none, params) => (none, params.erase name)

end

end Tree

structure PrefixRoute (H : Type) where
  method : Method
  start : Bytes
  handler : H

structure Router (H M : Type) where
  routes : Method → Node H := fun _ => .empty
  middlewares : List M := []
  prefixRoutes : List (PrefixRoute H) := []

namespace Router

variable {H M : Type}

def addRoute (r : Router H M) (method : Method) (path : Bytes) (h : H) : Router H M :=
  { r with
    routes := fun m =>
      if m = method then (r.routes m).insert (segments none path) h else r.routes m }

def use (r : Router H M) (mw : M) : Router H M := { r with middlewares := r.middlewares ++ [mw] }

def addPrefixRoute (r : Router H M) (method : Method) (start : Bytes) (h : H) : Router H M :=
  { r with prefixRoutes := r.prefixRoutes ++ [⟨method, start, h⟩] }

def matchRoute (r : Router H M) (method : Method) (path : Bytes) (params : Params) : Option H × Params :=
  match (r.routes method).search path params with
  | (some h, params) => (some h, params)
  | (none, params) =>
    match r.prefixRoutes.find? fun pr => pr.method = method ∧ pr.start.isPrefixOf path with
    | some pr => (some pr.handler, params.set (ascii "**") (path.drop pr.start.length))
    | none => (none, params)

def allMethods : List Method :=
  [.get, .post, .put, .delete, .patch, .options, .head, .unknown]

def pathExists (r : Router H M) (path : Bytes) : Bool :=
  (allMethods.any fun m => ((r.routes m).search path .empty).1.isSome) ||
    r.prefixRoutes.any fun pr => pr.start.isPrefixOf path

end Router

end QbuemStack.Http
