import QbuemStack.Base.Radix

/-! JSON texts (RFC 8259), built from their parts: a value of one of the types below is a text
together with the way it is read. -/
namespace Json

open Octets Numerals

structure Space where
  text : Bytes
  blank : text.all (fun c => c == 0x20 || c == 0x09 || c == 0x0A || c == 0x0D) = true

namespace Space

def none : Space := ⟨[], rfl⟩

end Space

def shortEscapes : List (UInt8 × UInt8) :=
  [(0x22, 0x22), (0x5C, 0x5C), (0x2F, 0x2F), (0x62, 0x08), (0x66, 0x0C), (0x6E, 0x0A), (0x72, 0x0D),
   (0x74, 0x09)]

def hexDigit (c : UInt8) : Option Nat :=
  if 0x30 ≤ c ∧ c ≤ 0x39 then some (c.toNat - 0x30)
  else if 0x41 ≤ c ∧ c ≤ 0x46 then some (c.toNat - 0x37)
  else if 0x61 ≤ c ∧ c ≤ 0x66 then some (c.toNat - 0x57)
  else Option.none

def codeUnit (digits : Bytes) : Option Nat :=
  if digits.length = 4 then (digits.mapM hexDigit).map fun ds => ds.foldl (fun v d => v * 16 + d) 0
  else Option.none

def encodeChar (n : Nat) : Bytes := String.utf8EncodeChar (Char.ofNat n)

def plainOctet (c : UInt8) : Bool := c != 0x22 && c != 0x5C && 0x20 ≤ c

inductive Item where
  | plain (c : UInt8) (h : plainOctet c = true)
  | short (letter octet : UInt8) (h : (letter, octet) ∈ shortEscapes)
  | escaped (digits : Bytes) (n : Nat) (h : codeUnit digits = some n ∧ ¬(0xD800 ≤ n ∧ n < 0xE000))
  | pair (high low : Bytes) (n k : Nat) (h : codeUnit high = some n ∧ codeUnit low = some k ∧
      (0xD800 ≤ n ∧ n < 0xDC00) ∧ 0xDC00 ≤ k ∧ k < 0xE000)

namespace Item

def raw : Item → Bytes
  | plain c _ => [c]
  | short letter _ _ => [0x5C, letter]
  | escaped digits _ _ => [0x5C, 0x75] ++ digits
  | pair high low _ _ _ => [0x5C, 0x75] ++ high ++ [0x5C, 0x75] ++ low

def octets : Item → Bytes
  | plain c _ => [c]
  | short _ octet _ => [octet]
  | escaped _ n _ => encodeChar n
  | pair _ _ n k _ => encodeChar (0x10000 + (n - 0xD800) * 0x400 + (k - 0xDC00))

end Item

abbrev Str := List Item

namespace Str

def raw (s : Str) : Bytes := s.flatMap Item.raw

def text (s : Str) : Bytes := s.flatMap Item.octets

def quoted (s : Str) : Bytes := [0x22] ++ raw s ++ [0x22]

end Str

def intText (negative : Bool) (n : Nat) : Bytes := (if negative then [0x2D] else []) ++ render 10 n

def isDigit (c : UInt8) : Bool := 0x30 ≤ c && c ≤ 0x39

structure Fractional where
  negative : Bool
  int : Nat
  frac : Bytes
  exponent : Bytes
  fracShape : frac = [] ∨ ∃ d ds, frac = 0x2E :: d :: ds ∧ (d :: ds).all isDigit = true
  exponentShape : exponent = [] ∨ ∃ e sign d ds, exponent = e :: sign ++ d :: ds ∧ (e = 0x65 ∨ e = 0x45) ∧
    (sign = [] ∨ sign = [0x2B] ∨ sign = [0x2D]) ∧ (d :: ds).all isDigit = true

def Fractional.text (f : Fractional) : Bytes := intText f.negative f.int ++ f.frac ++ f.exponent

mutual

inductive IsValue : Bytes → Prop where
  | string (s : Str) : IsValue s.quoted
  | int (negative : Bool) (n : Nat) : IsValue (intText negative n)
  | fractional (f : Fractional) : IsValue f.text
  | word (w : String) (h : w ∈ ["true", "false", "null"]) : IsValue (ascii w)
  | emptyArray (sp : Space) : IsValue ([0x5B] ++ sp.text ++ [0x5D])
  | array (body : Bytes) (h : IsElements body) : IsValue ([0x5B] ++ body ++ [0x5D])
  | emptyObject (sp : Space) : IsValue ([0x7B] ++ sp.text ++ [0x7D])
  | object (body : Bytes) (h : IsMembers body) : IsValue ([0x7B] ++ body ++ [0x7D])

inductive IsElements : Bytes → Prop where
  | one (before after : Space) (v : Bytes) (h : IsValue v) : IsElements (before.text ++ v ++ after.text)
  | more (before after : Space) (v rest : Bytes) (h : IsValue v) (hRest : IsElements rest) :
      IsElements (before.text ++ v ++ after.text ++ [0x2C] ++ rest)

inductive IsMembers : Bytes → Prop where
  | one (before middle inner after : Space) (name : Str) (v : Bytes) (h : IsValue v) :
      IsMembers (before.text ++ name.quoted ++ middle.text ++ [0x3A] ++ inner.text ++ v ++ after.text)
  | more (before middle inner after : Space) (name : Str) (v rest : Bytes) (h : IsValue v)
      (hRest : IsMembers rest) :
      IsMembers (before.text ++ name.quoted ++ middle.text ++ [0x3A] ++ inner.text ++ v ++ after.text ++
        [0x2C] ++ rest)

end

inductive Content where
  | str (s : Str)
  | int (negative : Bool) (n : Nat)
  | other (text : Bytes) (h : IsValue text)

def Content.text : Content → Bytes
  | .str s => s.quoted
  | .int negative n => intText negative n
  | .other text _ => text

structure Member where
  before : Space := .none
  name : Str
  middle : Space := .none
  inner : Space := .none
  content : Content
  after : Space := .none

def Member.text (m : Member) : Bytes :=
  m.before.text ++ m.name.quoted ++ m.middle.text ++ [0x3A] ++ m.inner.text ++ m.content.text ++ m.after.text

structure Object where
  lead : Space := .none
  members : List Member
  inside : Space := .none
  trail : Space := .none

namespace Object

def body (o : Object) : Bytes :=
  if o.members.isEmpty then o.inside.text else List.intercalate [0x2C] (o.members.map Member.text)

def text (o : Object) : Bytes := o.lead.text ++ [0x7B] ++ o.body ++ [0x7D] ++ o.trail.text

def HasString (o : Object) (name value : Bytes) : Prop :=
  ∃ m ∈ o.members, m.name.text = name ∧ ∃ s : Str, m.content = .str s ∧ s.text = value

def HasInt (o : Object) (name : Bytes) (value : Int) : Prop :=
  ∃ m ∈ o.members, m.name.text = name ∧ ∃ negative n, m.content = .int negative n ∧
    value = if negative then -(n : Int) else n

end Object

def HasString (payload name value : Bytes) : Prop :=
  ∃ o : Object, o.text = payload ∧ o.HasString name value

def HasInt (payload name : Bytes) (value : Int) : Prop :=
  ∃ o : Object, o.text = payload ∧ o.HasInt name value

def plainStr (text : Bytes) : Str :=
  text.filterMap fun c => if h : plainOctet c = true then some (.plain c h) else none

namespace Str

theorem raw_eq_text (s : Str) (h : 0x5C ∉ s.raw) : s.raw = s.text := by
  induction s with
  | nil => rfl
  | cons item s ih =>
    cases item with
    | plain c hPlain =>
      have hRest : 0x5C ∉ raw s := fun hMem => h (List.mem_cons_of_mem c hMem)
      exact congrArg (c :: ·) (ih hRest)
    | short | escaped | pair => simp [raw, Item.raw] at h

end Str

namespace Object

variable (o : Object) {left right : List Member} {m : Member}

def upTo (left : List Member) : Bytes := o.lead.text ++ [0x7B] ++ left.flatMap fun m => m.text ++ [0x2C]

def behind (right : List Member) : Bytes := (right.flatMap fun m => [0x2C] ++ m.text) ++ [0x7D] ++ o.trail.text

theorem text_split (h : o.members = left ++ m :: right) : o.text = o.upTo left ++ m.text ++ o.behind right := by
  have hBody : o.body = List.intercalate [0x2C] (o.members.map Member.text) := by simp [body, h]
  rw [text, hBody, h, List.map_append, List.map_cons, intercalate_split, List.flatMap_map, List.flatMap_map, upTo,
    behind]
  simp only [List.append_assoc]

/-- The name of a member stands in the text, with its quotes. -/
theorem quoted_infix (h : m ∈ o.members) : m.name.quoted <:+: o.text := by
  obtain ⟨left, right, hSplit⟩ := List.append_of_mem h
  rw [o.text_split hSplit, Member.text]
  exact ⟨o.upTo left ++ m.before.text, m.middle.text ++ [0x3A] ++ m.inner.text ++ m.content.text ++
    m.after.text ++ o.behind right, by simp only [List.append_assoc]⟩

end Object

theorem not_hasInt_of_not_infix {payload name : Bytes} {value : Int} (hPlain : 0x5C ∉ payload)
    (h : ¬[0x22] ++ name ++ [0x22] <:+: payload) : ¬HasInt payload name value := by
  rintro ⟨o, rfl, m, hMem, hName, -⟩
  have hInfix := o.quoted_infix hMem
  have hRaw : 0x5C ∉ m.name.raw := fun hIn => hPlain (hInfix.subset (by simp [Str.quoted, hIn]))
  rw [Str.quoted, m.name.raw_eq_text hRaw, hName] at hInfix
  exact h hInfix

end Json
