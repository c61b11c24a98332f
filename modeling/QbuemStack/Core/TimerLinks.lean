import QbuemStack.Core.TimerWheel

/-! The lists behind the pointers of the wheel. Each operation on the pointers is a change of a
shape. -/
namespace TimerWheel

open LinkedList Heap
open List (erase_of_not_mem mem_cons mem_filter mem_of_mem_erase nodup_nil)

variable {κ : Type}

structure Shape where
  lists : Nat → Nat → List Addr
  walk : List Addr
  hand : List Addr

namespace Shape

def empty : Shape := ⟨fun _ _ => [], [], []⟩

def place (sh : Shape) (a : Addr) (lv sl : Nat) : Shape where
  lists := fun l x => if l = lv ∧ x = sl then a :: sh.lists l x else sh.lists l x
  walk := sh.walk
  hand := sh.hand.filter (· != a)

def take (sh : Shape) (a : Addr) : Shape where
  lists := fun l x => (sh.lists l x).erase a
  walk := sh.walk.erase a
  hand := a :: sh.hand

def drop (sh : Shape) (a : Addr) : Shape := { sh with hand := sh.hand.filter (· != a) }

def pop (sh : Shape) (a : Addr) : Shape := { sh with walk := sh.walk.tail, hand := a :: sh.hand }

def detach (sh : Shape) (lv sl : Nat) : Shape where
  lists := fun l x => if l = lv ∧ x = sl then [] else sh.lists l x
  walk := sh.lists lv sl
  hand := sh.hand

def grab (sh : Shape) (a : Addr) : Shape := { sh with hand := a :: sh.hand }

end Shape

structure Links (s : State κ) (sh : Shape) : Prop where
  heads : ∀ lv sl, s.slots lv sl = (sh.lists lv sl).head?
  chains : ∀ lv sl, Seg s.heap none (sh.lists lv sl) none
  nodup : ∀ lv sl, (sh.lists lv sl).Nodup
  placed : ∀ lv sl a, a ∈ sh.lists lv sl → ∃ e, s.heap.val a = some e ∧ e.level = lv ∧ e.slot = sl
  walkChain : ∃ p, Seg s.heap p sh.walk none
  walkNodup : sh.walk.Nodup
  walkApart : ∀ a ∈ sh.walk, ∀ lv sl, a ∉ sh.lists lv sl
  handApart : ∀ a ∈ sh.hand, a ∉ sh.walk ∧ ∀ lv sl, a ∉ sh.lists lv sl
  handLive : ∀ a ∈ sh.hand, ∃ e, s.heap.val a = some e
  cover : ∀ a e, s.heap.val a = some e → a ∈ sh.lists e.level e.slot ∨ a ∈ sh.walk ∨ a ∈ sh.hand
  below : ∀ a e, s.heap.val a = some e → a < s.fresh

theorem links_initial (capacity : Nat) : Links (initial κ capacity) Shape.empty where
  heads _ _ := rfl
  chains _ _ := trivial
  nodup _ _ := nodup_nil
  placed := nofun
  walkChain := ⟨none, trivial⟩
  walkNodup := nodup_nil
  walkApart := nofun
  handApart := nofun
  handLive := nofun
  cover := nofun
  below := nofun

section Moves

variable {s : State κ} {sh : Shape} {a : Addr} {e : Entry κ} {lv sl : Nat} {rest : List Addr}

theorem val_eq_some {h : Heap (Entry κ)} (hVal : h.val a = some e) : ∃ n, h a = some n ∧ n.val = e := by
  unfold val at hVal
  exact Option.map_eq_some_iff.mp hVal

theorem val_of_node {h : Heap (Entry κ)} {n : Node (Entry κ)} (hNode : h a = some n) : h.val a = some n.val := by
  rw [val, hNode, Option.map_some]

theorem Links.unique (h : Links s sh) {lv' sl' : Nat} (ha : a ∈ sh.lists lv sl)
    (ha' : a ∈ sh.lists lv' sl') : lv = lv' ∧ sl = sl' := by
  obtain ⟨e, hVal, rfl, rfl⟩ := h.placed lv sl a ha
  obtain ⟨e', hVal', rfl, rfl⟩ := h.placed lv' sl' a ha'
  rw [hVal, Option.some.injEq] at hVal'
  rw [hVal']
  exact ⟨rfl, rfl⟩

theorem Links.detach (h : Links s sh) (hWalk : sh.walk = []) (lv sl : Nat) :
    Links (s.setSlot lv sl none) (sh.detach lv sl) := by
  have hSub : ∀ l x b, b ∈ (sh.detach lv sl).lists l x → b ∈ sh.lists l x := by
    intro l x b hb
    simp only [Shape.detach] at hb
    split_ifs at hb
    · cases hb
    · exact hb
  constructor
  case heads =>
    intro l x
    simp only [State.setSlot, Shape.detach]
    split_ifs
    · rfl
    · exact h.heads l x
  case chains =>
    intro l x
    simp only [Shape.detach]
    split_ifs
    · trivial
    · exact h.chains l x
  case nodup =>
    intro l x
    simp only [Shape.detach]
    split_ifs
    · exact nodup_nil
    · exact h.nodup l x
  case placed => exact fun l x b hb => h.placed l x b (hSub l x b hb)
  case walkChain => exact ⟨none, h.chains lv sl⟩
  case walkNodup => exact h.nodup lv sl
  case walkApart =>
    intro b hb l x hb'
    simp only [Shape.detach] at hb hb'
    split_ifs at hb' with hPlace
    · cases hb'
    · obtain ⟨rfl, rfl⟩ := h.unique hb hb'
      exact hPlace ⟨rfl, rfl⟩
  case handApart =>
    intro b hb
    exact ⟨(h.handApart b hb).2 lv sl, fun l x hb' => (h.handApart b hb).2 l x (hSub l x b hb')⟩
  case handLive => exact h.handLive
  case cover =>
    intro b e hVal
    rcases h.cover b e hVal with hb | hb | hb
    · by_cases hPlace : e.level = lv ∧ e.slot = sl
      · obtain ⟨rfl, rfl⟩ := hPlace
        exact .inr (.inl hb)
      · refine .inl ?_
        simp only [Shape.detach]
        rw [if_neg hPlace]
        exact hb
    · rw [hWalk] at hb
      cases hb
    · exact .inr (.inr hb)
  case below => exact h.below

theorem Links.pop (h : Links s sh) (hWalk : sh.walk = a :: rest) : ∃ n, s.heap a = some n ∧ n.next = rest.head? ∧
      Links (s.clearLinks a n) (sh.pop a) ∧ ∀ x, (s.clearLinks a n).heap.val x = s.heap.val x := by
  obtain ⟨p, hChain⟩ := h.walkChain
  rw [hWalk] at hChain
  obtain ⟨⟨v, hNode⟩, hRest⟩ := hChain
  have hVals : ∀ x, (s.clearLinks a ⟨v, rest.head?.or none, p⟩).heap.val x = s.heap.val x :=
    val_write hNode ⟨v, none, none⟩ rfl
  have hNodup := h.walkNodup
  rw [hWalk, List.nodup_cons] at hNodup
  have hTail : (sh.pop a).walk = rest := by
    simp only [Shape.pop, hWalk, List.tail_cons]
  have hApart : ∀ lv sl, a ∉ sh.lists lv sl := h.walkApart a (by simp [hWalk])
  refine ⟨_, hNode, by simp, ?_, hVals⟩
  constructor
  case heads => exact h.heads
  case chains => exact fun lv sl => (h.chains lv sl).write (hApart lv sl) _
  case nodup => exact h.nodup
  case placed =>
    intro lv sl b hb
    rw [hVals]
    exact h.placed lv sl b hb
  case walkChain =>
    rw [hTail]
    exact ⟨some a, hRest.write hNodup.1 _⟩
  case walkNodup =>
    rw [hTail]
    exact hNodup.2
  case walkApart =>
    intro b hb
    rw [hTail] at hb
    exact h.walkApart b (by simp [hWalk, hb])
  case handApart =>
    intro b hb
    rw [hTail]
    rcases mem_cons.mp hb with rfl | hb
    · exact ⟨hNodup.1, hApart⟩
    · obtain ⟨hNot, hLists⟩ := h.handApart b hb
      rw [hWalk] at hNot
      exact ⟨List.not_mem_of_not_mem_cons hNot, hLists⟩
  case handLive =>
    intro b hb
    rw [hVals]
    rcases mem_cons.mp hb with rfl | hb
    · exact ⟨v, val_of_node hNode⟩
    · exact h.handLive b hb
  case cover =>
    intro b e hVal
    rw [hVals] at hVal
    rw [hTail]
    rcases h.cover b e hVal with hb | hb | hb
    · exact .inl hb
    · rw [hWalk] at hb
      rcases mem_cons.mp hb with rfl | hb
      · exact .inr (.inr (List.mem_cons_self ..))
      · exact .inr (.inl hb)
    · exact .inr (.inr (List.mem_cons_of_mem _ hb))
  case below =>
    intro b e hVal
    rw [hVals] at hVal
    exact h.below b e hVal

theorem Links.grab (h : Links s sh) (e : Entry κ) :
    Links { s with heap := s.heap.write s.fresh ⟨e, none, none⟩, fresh := s.fresh + 1 } (sh.grab s.fresh) := by
  have hDead : s.heap.val s.fresh = none := by
    cases hVal : s.heap.val s.fresh with
    | none => rfl
    | some e' => exact absurd (h.below _ e' hVal) (Nat.lt_irrefl _)
  have hVals : ∀ x, x ≠ s.fresh → (s.heap.write s.fresh ⟨e, none, none⟩).val x = s.heap.val x := by
    intro x hx
    rw [val, val, write_other _ _ hx]
  have hOther : ∀ x e', s.heap.val x = some e' → x ≠ s.fresh := by
    rintro x e' hVal rfl
    rw [hDead] at hVal
    cases hVal
  have hLists : ∀ lv sl, s.fresh ∉ sh.lists lv sl := by
    intro lv sl hMem
    obtain ⟨e', hVal, -⟩ := h.placed lv sl _ hMem
    exact hOther _ e' hVal rfl
  have hWalk : s.fresh ∉ sh.walk := by
    intro hMem
    obtain ⟨p, hChain⟩ := h.walkChain
    obtain ⟨n, hNode⟩ := hChain.live hMem
    exact hOther _ _ (val_of_node hNode) rfl
  refine { h with
    chains := fun lv sl => (h.chains lv sl).write (hLists lv sl) _
    placed := ?placed
    walkChain := h.walkChain.imp fun p hChain => hChain.write hWalk _
    handApart := List.forall_mem_cons.mpr ⟨⟨hWalk, hLists⟩, h.handApart⟩
    handLive := ?handLive
    cover := ?cover
    below := ?below }
  case placed =>
    intro lv sl b hb
    obtain ⟨e', hVal, hPlace⟩ := h.placed lv sl b hb
    exact ⟨e', by rw [hVals b (hOther b e' hVal), hVal], hPlace⟩
  case handLive =>
    intro b hb
    rcases mem_cons.mp hb with rfl | hb
    · exact ⟨e, by simp [val]⟩
    · obtain ⟨e', hVal⟩ := h.handLive b hb
      exact ⟨e', by rw [hVals b (hOther b e' hVal), hVal]⟩
  case cover =>
    intro b e' hVal
    by_cases hb : b = s.fresh
    · exact .inr (.inr (by simp [Shape.grab, hb]))
    · rw [hVals b hb] at hVal
      rcases h.cover b e' hVal with hIn | hIn | hIn
      · exact .inl hIn
      · exact .inr (.inl hIn)
      · exact .inr (.inr (List.mem_cons_of_mem _ hIn))
  case below =>
    intro b e' hVal
    by_cases hb : b = s.fresh
    · exact hb ▸ Nat.lt_succ_self _
    · rw [hVals b hb] at hVal
      exact Nat.lt_succ_of_lt (h.below b e' hVal)

theorem Shape.mem_place {l x : Nat} {b : Addr} (hb : b ∈ (sh.place a lv sl).lists l x) :
    b = a ∧ l = lv ∧ x = sl ∨ b ∈ sh.lists l x := by
  simp only [Shape.place] at hb
  split_ifs at hb with hPlace
  · exact (mem_cons.mp hb).imp_left fun hEq => ⟨hEq, hPlace⟩
  · exact .inr hb

def inserted (s : State κ) (a : Addr) (e : Entry κ) (heap : Heap (Entry κ)) : State κ :=
  ({ s with heap := heap }.indexSet e.id a).setSlot (e.at s.currentMs).level (e.at s.currentMs).slot (some a)

theorem Links.insert (h : Links s sh) (ha : a ∈ sh.hand) (hVal : s.heap.val a = some e) :
    ∃ heap, insert s a = .ok (inserted s a e heap, ()) ∧
      Links (inserted s a e heap) (sh.place a (e.at s.currentMs).level (e.at s.currentMs).slot) ∧
      heap.val a = some (e.at s.currentMs) ∧ ∀ x, x ≠ a → heap.val x = s.heap.val x := by
  obtain ⟨n, hNode, rfl⟩ := val_eq_some hVal
  obtain ⟨hWalk, hLists⟩ := h.handApart a ha
  set lv := (n.val.at s.currentMs).level with hLv
  set sl := (n.val.at s.currentMs).slot with hSl
  have hWritten := (h.chains lv sl).write (hLists lv sl) { n with val := n.val.at s.currentMs }
  obtain ⟨heap, hPush, hSeg, hOther, hVals⟩ := pushFront_spec hWritten
    (List.nodup_cons.mpr ⟨hLists lv sl, h.nodup lv sl⟩) (write_same ..)
  have hVala : heap.val a = some (n.val.at s.currentMs) := by
    rw [hVals, val_of_node (write_same ..)]
  have hValx : ∀ x, x ≠ a → heap.val x = s.heap.val x := by
    intro x hx
    rw [hVals, val, val, write_other _ _ hx]
  have hSame : ∀ x, x ≠ a → x ∉ sh.lists lv sl → heap x = s.heap x := by
    intro x hx hNot
    rw [hOther x (by simp [hx, hNot]), write_other _ _ hx]
  have hIs : ∀ x, heap.val x = some (n.val.at s.currentMs) ∧ x = a ∨ x ≠ a ∧ heap.val x = s.heap.val x := by
    intro x
    by_cases hx : x = a
    · exact .inl ⟨hx ▸ hVala, hx⟩
    · exact .inr ⟨hx, hValx x hx⟩
  refine ⟨heap, ?_, ?_, hVala, hValx⟩
  · have hHead : (s.record a n).slots lv sl = (sh.lists lv sl).head? := h.heads lv sl
    have hHeap : (s.record a n).heap = s.heap.write a { n with val := n.val.at s.currentMs } := rfl
    rw [TimerWheel.insert, State.use, hNode, Option.elim_some, link, hHead, hHeap, hPush]
    rfl
  · constructor
    case heads =>
      intro l x
      simp only [inserted, State.setSlot, Shape.place]
      split_ifs with hPlace
      · rfl
      · exact h.heads l x
    case chains =>
      intro l x
      simp only [Shape.place]
      split_ifs with hPlace
      · rw [hPlace.1, hPlace.2]
        exact hSeg
      · refine (h.chains l x).frame fun y hy => hSame y (fun hEq => hLists l x (hEq ▸ hy)) fun hy' => ?_
        exact hPlace (h.unique hy hy')
    case nodup =>
      intro l x
      simp only [Shape.place]
      split_ifs with hPlace
      · exact List.nodup_cons.mpr ⟨hLists l x, h.nodup l x⟩
      · exact h.nodup l x
    case placed =>
      intro l x b hb
      rcases Shape.mem_place hb with ⟨rfl, hLevel, hSlot⟩ | hb
      · exact ⟨_, hVala, hLevel.symm, hSlot.symm⟩
      · obtain ⟨e, hVal, hPlace⟩ := h.placed l x b hb
        exact ⟨e, (hValx b fun hEq => hLists l x (hEq ▸ hb)).trans hVal, hPlace⟩
    case walkChain =>
      obtain ⟨p, hChain⟩ := h.walkChain
      exact ⟨p, hChain.frame fun y hy => hSame y (fun hEq => hWalk (hEq ▸ hy)) (h.walkApart y hy lv sl)⟩
    case walkNodup => exact h.walkNodup
    case walkApart =>
      intro b hb l x hb'
      rcases Shape.mem_place hb' with ⟨rfl, -⟩ | hb'
      · exact hWalk hb
      · exact h.walkApart b hb l x hb'
    case handApart =>
      intro b hb
      simp only [Shape.place, mem_filter, bne_iff_ne] at hb
      refine ⟨(h.handApart b hb.1).1, fun l x hb' => ?_⟩
      rcases Shape.mem_place hb' with ⟨rfl, -⟩ | hb'
      · exact hb.2 rfl
      · exact (h.handApart b hb.1).2 l x hb'
    case handLive =>
      intro b hb
      simp only [Shape.place, mem_filter, bne_iff_ne] at hb
      obtain ⟨e, hVal⟩ := h.handLive b hb.1
      exact ⟨e, (hValx b hb.2).trans hVal⟩
    case cover =>
      intro b e hVal
      rcases hIs b with ⟨hVal', rfl⟩ | ⟨hb, hVal'⟩
      · obtain rfl : n.val.at s.currentMs = e := Option.some.inj (hVal'.symm.trans hVal)
        refine .inl ?_
        simp only [Shape.place]
        rw [if_pos ⟨hLv.symm, hSl.symm⟩]
        exact List.mem_cons_self ..
      · rcases h.cover b e (hVal'.symm.trans hVal) with hIn | hIn | hIn
        · refine .inl ?_
          simp only [Shape.place]
          split_ifs
          · exact List.mem_cons_of_mem _ hIn
          · exact hIn
        · exact .inr (.inl hIn)
        · exact .inr (.inr (mem_filter.mpr ⟨hIn, by simpa using hb⟩))
    case below =>
      intro b e hVal
      rcases hIs b with ⟨-, rfl⟩ | ⟨-, hVal'⟩
      · exact h.below b n.val (val_of_node hNode)
      · exact h.below b e (hVal'.symm.trans hVal)

theorem Links.free (h : Links s sh) (ha : a ∈ sh.hand) : Links { s with heap := s.heap.free a } (sh.drop a) := by
  obtain ⟨hWalk, hLists⟩ := h.handApart a ha
  have hVals : ∀ x, x ≠ a → (s.heap.free a).val x = s.heap.val x := by
    intro x hx
    rw [val, val, free_other _ hx]
  have hLive : ∀ x e, (s.heap.free a).val x = some e → x ≠ a ∧ s.heap.val x = some e := by
    intro x e hVal
    by_cases hx : x = a
    · subst hx
      simp [val] at hVal
    · exact ⟨hx, (hVals x hx).symm.trans hVal⟩
  refine { h with
    chains := fun lv sl => (h.chains lv sl).free (hLists lv sl)
    placed := ?placed
    walkChain := h.walkChain.imp fun p hChain => hChain.free hWalk
    handApart := fun b hb => h.handApart b (mem_filter.mp hb).1
    handLive := ?handLive
    cover := ?cover
    below := fun b e hVal => h.below b e (hLive b e hVal).2 }
  case placed =>
    intro lv sl b hb
    rw [hVals b fun hEq => hLists lv sl (hEq ▸ hb)]
    exact h.placed lv sl b hb
  case handLive =>
    intro b hb
    obtain ⟨hIn, hb⟩ := mem_filter.mp hb
    rw [hVals b (by simpa using hb)]
    exact h.handLive b hIn
  case cover =>
    intro b e hVal
    obtain ⟨hb, hVal⟩ := hLive b e hVal
    rcases h.cover b e hVal with hIn | hIn | hIn
    · exact .inl hIn
    · exact .inr (.inl hIn)
    · exact .inr (.inr (mem_filter.mpr ⟨hIn, by simpa using hb⟩))

theorem Links.take {s' : State κ} (h : Links s sh) (hLive : ∃ e, s.heap.val a = some e)
    (hVals : ∀ x, s'.heap.val x = s.heap.val x) (hFresh : s'.fresh = s.fresh)
    (hHeads : ∀ lv sl, s'.slots lv sl = ((sh.lists lv sl).erase a).head?)
    (hChains : ∀ lv sl, Seg s'.heap none ((sh.lists lv sl).erase a) none)
    (hWalk : ∃ p, Seg s'.heap p (sh.walk.erase a) none) : Links s' (sh.take a) := by
  constructor
  case heads => exact hHeads
  case chains => exact hChains
  case nodup => exact fun lv sl => (h.nodup lv sl).erase a
  case placed =>
    intro lv sl b hb
    rw [hVals]
    exact h.placed lv sl b (mem_of_mem_erase hb)
  case walkChain => exact hWalk
  case walkNodup => exact h.walkNodup.erase a
  case walkApart =>
    exact fun b hb lv sl hb' => h.walkApart b (mem_of_mem_erase hb) lv sl (mem_of_mem_erase hb')
  case handApart =>
    intro b hb
    rcases mem_cons.mp hb with rfl | hb
    · exact ⟨h.walkNodup.not_mem_erase, fun lv sl => (h.nodup lv sl).not_mem_erase⟩
    · obtain ⟨hNot, hLists⟩ := h.handApart b hb
      exact ⟨fun hb' => hNot (mem_of_mem_erase hb'), fun lv sl hb' => hLists lv sl (mem_of_mem_erase hb')⟩
  case handLive =>
    intro b hb
    rw [hVals]
    rcases mem_cons.mp hb with rfl | hb
    · exact hLive
    · exact h.handLive b hb
  case cover =>
    intro b e hVal
    rw [hVals] at hVal
    by_cases hb : b = a
    · exact .inr (.inr (by simp [Shape.take, hb]))
    · rcases h.cover b e hVal with hIn | hIn | hIn
      · exact .inl ((List.mem_erase_of_ne hb).mpr hIn)
      · exact .inr (.inl ((List.mem_erase_of_ne hb).mpr hIn))
      · exact .inr (.inr (List.mem_cons_of_mem _ hIn))
  case below =>
    intro b e hVal
    rw [hVals] at hVal
    rw [hFresh]
    exact h.below b e hVal

theorem erase_middle {l₁ l₂ : List Addr} (hNodup : (l₁ ++ a :: l₂).Nodup) : (l₁ ++ a :: l₂).erase a = l₁ ++ l₂ := by
  have hNot : a ∉ l₁ := fun ha => (List.nodup_append.mp hNodup).2.2 a ha a (by simp) rfl
  rw [List.erase_append_right _ hNot, List.erase_cons_head]

def Unlinks (s : State κ) (sh : Shape) (lv sl : Nat) (a : Addr) : Prop :=
  ∃ heap head, unlink s lv sl a = .ok (({ s with heap := heap } : State κ).setSlot lv sl head, ()) ∧
    Links (({ s with heap := heap } : State κ).setSlot lv sl head) (sh.take a) ∧ ∀ x, heap.val x = s.heap.val x

theorem Links.unlink (h : Links s sh) (ha : a ∈ sh.lists lv sl) : Unlinks s sh lv sl a := by
  obtain ⟨l₁, l₂, hSplit⟩ := List.append_of_mem ha
  have hNodup := h.nodup lv sl
  have hSeg := h.chains lv sl
  rw [hSplit] at hNodup hSeg
  obtain ⟨heap, hUnlink, hChain, hOther, hVals⟩ := unlink_spec hSeg hNodup (fun _ => rfl) (s.slots lv sl)
  have hErased : (sh.lists lv sl).erase a = l₁ ++ l₂ := by rw [hSplit, erase_middle hNodup]
  obtain ⟨e, hVal, -⟩ := h.placed lv sl a ha
  have hNotWalk : a ∉ sh.walk := fun hIn => h.walkApart a hIn lv sl ha
  have hApart : ∀ l x, ¬(l = lv ∧ x = sl) → a ∉ sh.lists l x :=
    fun l x hPlace hIn => hPlace (h.unique hIn ha)
  refine ⟨heap, if l₁ = [] then l₂.head? else s.slots lv sl, ?_, ?_, hVals⟩
  · rw [TimerWheel.unlink, State.use, hUnlink]
    rfl
  · refine h.take ⟨e, hVal⟩ hVals rfl (fun l x => ?_) (fun l x => ?_) ?_
    · simp only [State.setSlot]
      split_ifs with hPlace hFront
      · rw [hPlace.1, hPlace.2, hErased, hFront, List.nil_append]
      · rw [hPlace.1, hPlace.2, hErased, h.heads, hSplit]
        obtain ⟨b, rest, rfl⟩ := List.exists_cons_of_ne_nil hFront
        rfl
      · rw [erase_of_not_mem (hApart l x hPlace)]
        exact h.heads l x
    · by_cases hPlace : l = lv ∧ x = sl
      · rw [hPlace.1, hPlace.2, hErased]
        exact hChain
      · rw [erase_of_not_mem (hApart l x hPlace)]
        refine (h.chains l x).frame fun y hy => hOther y fun hy' => ?_
        rw [← hSplit] at hy'
        exact hPlace (h.unique hy hy')
    · obtain ⟨p, hWalk⟩ := h.walkChain
      rw [erase_of_not_mem hNotWalk]
      refine ⟨p, hWalk.frame fun y hy => hOther y fun hy' => ?_⟩
      rw [← hSplit] at hy'
      exact h.walkApart y hy lv sl hy'

theorem Links.unlinkWalk (h : Links s sh) (lv sl : Nat) {first : Addr}
    (hWalk : sh.walk = first :: rest) (ha : a ∈ rest) : Unlinks s sh lv sl a := by
  obtain ⟨l₁, l₂, rfl⟩ := List.append_of_mem ha
  obtain ⟨p, hChain⟩ := h.walkChain
  have hNodup := h.walkNodup
  rw [hWalk, ← List.cons_append] at hNodup hChain
  obtain ⟨heap, hUnlink, hRest, hOther, hVals⟩ := unlink_spec hChain hNodup nofun (s.slots lv sl)
  have hIn : a ∈ sh.walk := by simp [hWalk]
  obtain ⟨n, hNode⟩ := hChain.live (a := a) (by simp)
  have hOutside : ∀ l x, ∀ y ∈ sh.lists l x, heap y = s.heap y := by
    intro l x y hy
    refine hOther y fun hy' => ?_
    rw [List.cons_append, ← hWalk] at hy'
    exact h.walkApart y hy' l x hy
  refine ⟨heap, s.slots lv sl, ?_, ?_, hVals⟩
  · rw [TimerWheel.unlink, State.use, hUnlink]
    rfl
  · refine h.take ⟨n.val, val_of_node hNode⟩ hVals rfl (fun l x => ?_) (fun l x => ?_) ⟨p, ?_⟩
    · rw [erase_of_not_mem (h.walkApart a hIn l x)]
      simp only [State.setSlot]
      split_ifs with hPlace
      · rw [hPlace.1, hPlace.2]
        exact h.heads lv sl
      · exact h.heads l x
    · rw [erase_of_not_mem (h.walkApart a hIn l x)]
      exact (h.chains l x).frame (hOutside l x)
    · rw [hWalk, ← List.cons_append, erase_middle hNodup]
      exact hRest

end Moves

end TimerWheel
