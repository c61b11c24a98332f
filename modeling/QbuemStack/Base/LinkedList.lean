import Mathlib.Data.List.Nodup

/-! Doubly linked lists in a heap of cells. A segment is described by the addresses it runs through,
the one before it and the one after it. -/
namespace LinkedList

open Option (bind_eq_some_iff map_eq_some_iff or_none)

abbrev Addr := Nat

structure Node (α : Type*) where
  val : α
  next : Option Addr
  prev : Option Addr

abbrev Heap (α : Type*) := Addr → Option (Node α)

variable {α : Type*}

namespace Heap

def write (h : Heap α) (a : Addr) (n : Node α) : Heap α := fun x => if x = a then some n else h x

def free (h : Heap α) (a : Addr) : Heap α := fun x => if x = a then none else h x

def val (h : Heap α) (a : Addr) : Option α := (h a).map Node.val

@[simp] theorem write_same (h : Heap α) (a : Addr) (n : Node α) : h.write a n a = some n := by
  simp [write]

theorem write_other (h : Heap α) {a x : Addr} (n : Node α) (hx : x ≠ a) : h.write a n x = h x := by
  simp [write, hx]

@[simp] theorem free_same (h : Heap α) (a : Addr) : h.free a a = none := by
  simp [free]

theorem free_other (h : Heap α) {a x : Addr} (hx : x ≠ a) : h.free a x = h x := by
  simp [free, hx]

theorem val_write {h : Heap α} {a : Addr} {n : Node α} (ha : h a = some n) (m : Node α)
    (hVal : m.val = n.val) (x : Addr) : (h.write a m).val x = h.val x := by
  by_cases hx : x = a
  · subst hx
    simp [val, ha, hVal]
  · simp [val, write_other h m hx]

end Heap

/-- The cells of `l` are linked in this order, after `p` and before `q`. -/
def Seg (h : Heap α) : Option Addr → List Addr → Option Addr → Prop
  | _, [], _ => True
  | p, a :: rest, q => (∃ v, h a = some ⟨v, rest.head?.or q, p⟩) ∧ Seg h (some a) rest q

section Segments

variable {h : Heap α} {p q : Option Addr} {l : List Addr} {a : Addr}

theorem Seg.live (hSeg : Seg h p l q) (ha : a ∈ l) : ∃ n, h a = some n := by
  induction l generalizing p with
  | nil => cases ha
  | cons b rest ih =>
    obtain ⟨⟨v, hb⟩, hRest⟩ := hSeg
    rcases List.mem_cons.mp ha with rfl | ha
    · exact ⟨_, hb⟩
    · exact ih hRest ha

theorem Seg.frame {h' : Heap α} (hSeg : Seg h p l q) (hSame : ∀ a ∈ l, h' a = h a) : Seg h' p l q := by
  induction l generalizing p with
  | nil => trivial
  | cons b rest ih =>
    obtain ⟨⟨v, hb⟩, hRest⟩ := hSeg
    refine ⟨⟨v, ?_⟩, ih hRest fun a ha => hSame a (List.mem_cons_of_mem _ ha)⟩
    rw [hSame b (List.mem_cons_self ..), hb]

theorem seg_append (l₁ l₂ : List Addr) :
    Seg h p (l₁ ++ l₂) q ↔ Seg h p l₁ (l₂.head?.or q) ∧ Seg h (l₁.getLast?.or p) l₂ q := by
  induction l₁ generalizing p with
  | nil => simp [Seg]
  | cons b rest ih =>
    rw [List.cons_append, Seg, Seg, ih, and_assoc]
    cases rest with
    | nil => simp
    | cons c rest =>
      have hLast : (c :: rest).getLast? = some ((c :: rest).getLast (List.cons_ne_nil c rest)) :=
        List.getLast?_eq_some_getLast _
      rfl

theorem Seg.write (hSeg : Seg h p l q) (ha : a ∉ l) (n : Node α) : Seg (h.write a n) p l q :=
  hSeg.frame fun _ hx => h.write_other n fun hEq => ha (hEq ▸ hx)

theorem Seg.free (hSeg : Seg h p l q) (ha : a ∉ l) : Seg (h.free a) p l q :=
  hSeg.frame fun _ hx => h.free_other fun hEq => ha (hEq ▸ hx)

theorem Seg.setFirst {p' : Option Addr} {n : Node α} (hSeg : Seg h p (a :: l) q) (ha : h a = some n)
    (hNodup : a ∉ l) : Seg (h.write a { n with prev := p' }) p' (a :: l) q := by
  obtain ⟨⟨v, hv⟩, hRest⟩ := hSeg
  obtain rfl : n = ⟨v, l.head?.or q, p⟩ := Option.some.inj (ha.symm.trans hv)
  exact ⟨⟨v, by simp⟩, hRest.write hNodup _⟩

theorem Seg.setLast {q' : Option Addr} {n : Node α} (hSeg : Seg h p (l ++ [a]) q) (ha : h a = some n)
    (hNodup : a ∉ l) : Seg (h.write a { n with next := q' }) p (l ++ [a]) q' := by
  rw [seg_append] at hSeg ⊢
  obtain ⟨hFront, ⟨v, hv⟩, -⟩ := hSeg
  obtain rfl : n = ⟨v, q, l.getLast?.or p⟩ := Option.some.inj (ha.symm.trans (by simpa using hv))
  exact ⟨by simpa using hFront.write hNodup _, ⟨v, by simp⟩, trivial⟩

theorem Seg.middle {l₁ l₂ : List Addr} (hSeg : Seg h p (l₁ ++ a :: l₂) q) :
    ∃ v, h a = some ⟨v, l₂.head?.or q, l₁.getLast?.or p⟩ := by
  rw [seg_append] at hSeg
  exact hSeg.2.1

end Segments

section Operations

namespace Heap

def setNext (h : Heap α) (a : Addr) (q : Option Addr) : Option (Heap α) :=
  (h a).map fun n => h.write a { n with next := q }

def setPrev (h : Heap α) (a : Addr) (p : Option Addr) : Option (Heap α) :=
  (h a).map fun n => h.write a { n with prev := p }

def pushFront (h : Heap α) (head : Option Addr) (a : Addr) : Option (Heap α) :=
  (h a).bind fun n =>
    let h := h.write a { n with next := head, prev := none }
    head.elim (some h) fun b => h.setPrev b (some a)

def unlink (h : Heap α) (head : Option Addr) (a : Addr) : Option (Heap α × Option Addr) :=
  (h a).bind fun n =>
    (n.prev.elim (some (h, n.next)) fun b => (h.setNext b n.next).map fun h => (h, head)).bind
      fun (h, head) => (h a).bind fun n =>
        (n.next.elim (some h) fun b => h.setPrev b n.prev).bind fun h => (h a).map fun n =>
          (h.write a { n with next := none, prev := none }, head)

section Dead

variable {h : Heap α} {a b : Addr}

section

variable (hb : h b = none)
include hb

theorem write_dead {n : Node α} (ha : h a = some n) (m : Node α) : h.write a m b = none := by
  have hNe : b ≠ a := by
    rintro rfl
    rw [hb] at ha
    cases ha
  rw [write_other h m hNe, hb]

theorem setNext_dead {q : Option Addr} {h' : Heap α} (hSet : h.setNext a q = some h') : h' b = none := by
  obtain ⟨n, ha, rfl⟩ := map_eq_some_iff.mp hSet
  exact write_dead hb ha _

theorem setPrev_dead {p : Option Addr} {h' : Heap α} (hSet : h.setPrev a p = some h') : h' b = none := by
  obtain ⟨n, ha, rfl⟩ := map_eq_some_iff.mp hSet
  exact write_dead hb ha _

theorem pushFront_dead {head : Option Addr} {h' : Heap α} (hPush : h.pushFront head a = some h') : h' b = none := by
  obtain ⟨n, ha, hPush⟩ := bind_eq_some_iff.mp hPush
  have hWritten := write_dead hb ha { n with next := head, prev := none }
  cases head with
  | none => exact Option.some.inj hPush ▸ hWritten
  | some c => exact setPrev_dead hWritten hPush

theorem unlink_dead {head : Option Addr} {out : Heap α × Option Addr} (hUnlink : h.unlink head a = some out) :
    out.1 b = none := by
  obtain ⟨n, ha, hUnlink⟩ := bind_eq_some_iff.mp hUnlink
  obtain ⟨⟨h₁, head₁⟩, hBefore, hUnlink⟩ := bind_eq_some_iff.mp hUnlink
  obtain ⟨n₁, ha₁, hUnlink⟩ := bind_eq_some_iff.mp hUnlink
  obtain ⟨h₂, hAfter, hUnlink⟩ := bind_eq_some_iff.mp hUnlink
  obtain ⟨n₂, ha₂, rfl⟩ := map_eq_some_iff.mp hUnlink
  have hDead₁ : h₁ b = none := by
    rcases hPrev : n.prev with _ | c <;> rw [hPrev] at hBefore
    · obtain ⟨rfl, -⟩ := Prod.mk.inj (Option.some.inj hBefore)
      exact hb
    · obtain ⟨h₃, hSet, hEq⟩ := map_eq_some_iff.mp hBefore
      exact (Prod.mk.inj hEq).1 ▸ setNext_dead hb hSet
  have hDead₂ : h₂ b = none := by
    rcases hNext : n₁.next with _ | c <;> rw [hNext] at hAfter
    · exact Option.some.inj hAfter ▸ hDead₁
    · exact setPrev_dead hDead₁ hAfter
  exact write_dead hDead₂ ha₂ _

end

end Dead

end Heap

variable {h : Heap α} {p q : Option Addr} {l l₁ l₂ : List Addr} {a : Addr}

theorem replaceAfter_spec (q' : Option Addr) (hSeg : Seg h p l q) (hNodup : l.Nodup) :
    ∃ h', (l.getLast?.elim (some h) fun b => h.setNext b q') = some h' ∧ Seg h' p l q' ∧
      (∀ x, x ∉ l → h' x = h x) ∧ ∀ x, h'.val x = h.val x := by
  rcases List.eq_nil_or_concat l with rfl | ⟨front, b, rfl⟩
  · exact ⟨h, rfl, trivial, fun _ _ => rfl, fun _ => rfl⟩
  · rw [List.concat_eq_append] at hSeg hNodup ⊢
    obtain ⟨m, hm⟩ := hSeg.live (a := b) (by simp)
    have hFront : b ∉ front := by
      have hDisjoint := (List.nodup_append.mp hNodup).2.2
      exact fun hb => hDisjoint b hb b (by simp) rfl
    refine ⟨h.write b { m with next := q' }, by simp [Heap.setNext, hm], hSeg.setLast hm hFront, ?_,
      Heap.val_write hm _ rfl⟩
    intro x hx
    simp only [List.mem_append, List.mem_singleton, not_or] at hx
    exact h.write_other _ hx.2

theorem replaceBefore_spec (p' : Option Addr) (hSeg : Seg h p l q) (hNodup : l.Nodup) :
    ∃ h', (l.head?.elim (some h) fun b => h.setPrev b p') = some h' ∧ Seg h' p' l q ∧
      (∀ x, x ∉ l → h' x = h x) ∧ ∀ x, h'.val x = h.val x := by
  cases l with
  | nil => exact ⟨h, rfl, trivial, fun _ _ => rfl, fun _ => rfl⟩
  | cons b rest =>
    obtain ⟨m, hm⟩ := hSeg.live (a := b) (by simp)
    refine ⟨h.write b { m with prev := p' }, by simp [Heap.setPrev, hm],
      hSeg.setFirst hm (List.nodup_cons.mp hNodup).1, ?_, Heap.val_write hm _ rfl⟩
    intro x hx
    exact h.write_other _ (List.ne_of_not_mem_cons hx)

theorem pushFront_spec {n : Node α} (hSeg : Seg h none l none) (hNodup : (a :: l).Nodup) (ha : h a = some n) :
    ∃ h', h.pushFront l.head? a = some h' ∧ Seg h' none (a :: l) none ∧
      (∀ x, x ∉ a :: l → h' x = h x) ∧ ∀ x, h'.val x = h.val x := by
  obtain ⟨hNot, hNodup⟩ := List.nodup_cons.mp hNodup
  obtain ⟨h', hSet, hRest, hOther, hVal⟩ :=
    replaceBefore_spec (some a) (hSeg.write hNot { n with next := l.head?, prev := none }) hNodup
  refine ⟨h', by rw [Heap.pushFront, ha]; exact hSet, ⟨⟨n.val, ?_⟩, hRest⟩, fun x hx => ?_, fun x => ?_⟩
  · rw [hOther a hNot, Heap.write_same, or_none]
  · rw [hOther x (List.not_mem_of_not_mem_cons hx), Heap.write_other _ _ (List.ne_of_not_mem_cons hx)]
  · exact (hVal x).trans (Heap.val_write ha { n with next := l.head?, prev := none } rfl x)

/-- A cell taken out of a list closes the gap. For the first cell the predecessor has to be null. -/
theorem unlink_spec (hSeg : Seg h p (l₁ ++ a :: l₂) none) (hNodup : (l₁ ++ a :: l₂).Nodup)
    (hFirst : l₁ = [] → p = none) (head : Option Addr) :
    ∃ h', h.unlink head a = some (h', if l₁ = [] then l₂.head? else head) ∧ Seg h' p (l₁ ++ l₂) none ∧
      (∀ x, x ∉ l₁ ++ a :: l₂ → h' x = h x) ∧ ∀ x, h'.val x = h.val x := by
  obtain ⟨hNodup₁, hNodupRest, hDisjoint⟩ := List.nodup_append.mp hNodup
  obtain ⟨hNot₂, hNodup₂⟩ := List.nodup_cons.mp hNodupRest
  have hNot₁ : a ∉ l₁ := fun ha => hDisjoint a ha a (by simp) rfl
  have hApart : ∀ x ∈ l₁, x ∉ l₂ := fun x hx hx' => hDisjoint x hx x (by simp [hx']) rfl
  obtain ⟨v, ha⟩ := hSeg.middle
  rw [or_none] at ha
  have hPrev : l₁.getLast?.or p = l₁.getLast? := by
    cases hLast : l₁.getLast? with
    | none => rw [hFirst (List.getLast?_eq_none_iff.mp hLast)]; rfl
    | some b => rfl
  rw [hPrev] at ha
  obtain ⟨hSeg₁, -, hSeg₂⟩ := (seg_append l₁ (a :: l₂)).mp hSeg
  obtain ⟨h₁, hSet₁, hFront, hOther₁, hVal₁⟩ := replaceAfter_spec l₂.head? hSeg₁ hNodup₁
  have hBack : Seg h₁ (some a) l₂ none := hSeg₂.frame fun x hx => hOther₁ x fun hx' => hApart x hx' hx
  obtain ⟨h₂, hSet₂, hBack, hOther₂, hVal₂⟩ := replaceBefore_spec l₁.getLast? hBack hNodup₂
  have ha₁ : h₁ a = some ⟨v, l₂.head?, l₁.getLast?⟩ := by rw [hOther₁ a hNot₁, ha]
  have ha₂ : h₂ a = some ⟨v, l₂.head?, l₁.getLast?⟩ := by rw [hOther₂ a hNot₂, ha₁]
  refine ⟨h₂.write a ⟨v, none, none⟩, ?_, ?_, ?_, ?_⟩
  · rw [Heap.unlink, ha]
    have hStep : ((l₁.getLast?.elim (some (h, l₂.head?)) fun b =>
        (h.setNext b l₂.head?).map fun h => (h, head)) = some (h₁, if l₁ = [] then l₂.head? else head)) := by
      cases hLast : l₁.getLast? with
      | none =>
        obtain rfl : h = h₁ := by simpa [hLast] using hSet₁
        rw [if_pos (List.getLast?_eq_none_iff.mp hLast), Option.elim_none]
      | some b =>
        have hSome : l₁ ≠ [] := by
          rintro rfl
          cases hLast
        rw [hLast, Option.elim_some] at hSet₁
        rw [if_neg hSome, Option.elim_some, hSet₁]
        rfl
    simp only [Option.bind_some, hStep, ha₁, hSet₂, ha₂, Option.map_some]
  · rw [seg_append, hPrev, or_none]
    exact ⟨(hFront.frame fun x hx => hOther₂ x (hApart x hx)).write hNot₁ _, hBack.write hNot₂ _⟩
  · intro x hx
    simp only [List.mem_append, List.mem_cons, not_or] at hx
    rw [Heap.write_other _ _ hx.2.1, hOther₂ x hx.2.2, hOther₁ x hx.1]
  · intro x
    exact (Heap.val_write ha₂ ⟨v, none, none⟩ rfl x).trans ((hVal₂ x).trans (hVal₁ x))

end Operations

end LinkedList
