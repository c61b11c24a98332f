import QbuemStack.Core.TimerLinks

/-! The arithmetic of the wheel. A level above the first is redistributed after the first level's
slot of the same millisecond has been fired, so an entry that comes down at the very millisecond of
its expiry waits for a whole turn of the first level. -/
namespace TimerWheel

theorem kSlotMs_eq (lv : Nat) : kSlotMs lv = 256 ^ min lv 3 := by
  match lv with
  | 0 => rfl
  | 1 => rfl
  | 2 => rfl
  | n + 3 => rw [show min (n + 3) 3 = 3 by omega]; rfl

theorem kSlotMs_pos (lv : Nat) : 0 < kSlotMs lv := by
  rw [kSlotMs_eq]
  exact Nat.pow_pos (by omega)

variable {lv now sl expiry fate : Nat}

theorem kSlotMs_dvd {lv' : Nat} (h : lv ≤ lv') : kSlotMs lv ∣ kSlotMs lv' := by
  rw [kSlotMs_eq, kSlotMs_eq]
  exact Nat.pow_dvd_pow 256 (by omega)

/-- When an entry put in at `now` fires. One that has expired waits for its slot to come round. -/
def fireTime (now expiry : Nat) : Nat :=
  if expiry ≤ now then now + 256 - (now - expiry) % 256
  else if expiry - now < 256 then expiry
  else if expiry % 256 = 0 then expiry + 256
  else expiry

def turn (lv expiry : Nat) : Nat := expiry / kSlotMs lv * kSlotMs lv

inductive Due (now pending : Nat) : Nat → Nat → Nat → Nat → Prop where
  | first {expiry fate : Nat} (hSlot : fate % 256 = expiry % 256) (hAhead : now < fate)
      (hTurn : fate ≤ now + 256) (hOver : expiry ≤ fate) : Due now pending 0 (slotFor 0 expiry) expiry fate
  | above {lv expiry fate : Nat} (hLevel : 1 ≤ lv ∧ lv ≤ 3)
      (hAhead : now < turn lv expiry ∨ pending ≤ lv ∧ now = turn lv expiry)
      (hFate : fate = if expiry % 256 = 0 then expiry + 256 else expiry) :
      Due now pending lv (slotFor lv expiry) expiry fate

theorem turn_le (lv expiry : Nat) : turn lv expiry ≤ expiry := Nat.div_mul_le_self expiry (kSlotMs lv)

theorem lt_turn_add (lv expiry : Nat) : expiry < turn lv expiry + kSlotMs lv := by
  unfold turn
  have := Nat.lt_div_mul_add (a := expiry) (kSlotMs_pos lv)
  omega

theorem levelAt_cases (now expiry : Nat) : (levelAt now expiry = 0 ∧ expiry - now < 256) ∨
      (1 ≤ levelAt now expiry ∧ levelAt now expiry ≤ 3 ∧ kSlotMs (levelAt now expiry) ≤ expiry - now) := by
  have hDelta : (if expiry > now then expiry - now else 0) = expiry - now := by
    split_ifs
    · rfl
    · omega
  simp only [levelAt, hDelta, levelFor]
  split_ifs with h3 h2 h1
  · exact .inr ⟨by omega, by omega, h3⟩
  · exact .inr ⟨by omega, by omega, h2⟩
  · exact .inr ⟨by omega, by omega, h1⟩
  · exact .inl ⟨rfl, by simpa [kSlotMs] using h1⟩

theorem kSlotMs_ge (h : 1 ≤ lv) : 256 ≤ kSlotMs lv :=
  Nat.le_of_dvd (kSlotMs_pos lv) (kSlotMs_dvd h)

theorem due_insert (now pending expiry : Nat) :
    Due now pending (levelAt now expiry) (slotFor (levelAt now expiry) expiry) expiry (fireTime now expiry) := by
  rcases levelAt_cases now expiry with ⟨hLevel, hNear⟩ | ⟨hLow, hHigh, hFar⟩
  · rw [hLevel]
    unfold fireTime
    by_cases hOver : expiry ≤ now
    · rw [if_pos hOver]
      exact .first (by omega) (by omega) (by omega) (by omega)
    · rw [if_neg hOver, if_pos hNear]
      exact .first rfl (by omega) (by omega) (Nat.le_refl _)
  · have hGe := kSlotMs_ge hLow
    have hTurn := lt_turn_add (levelAt now expiry) expiry
    refine .above ⟨hLow, hHigh⟩ (.inl (by omega)) ?_
    rw [fireTime, if_neg (by omega), if_neg (by omega)]

theorem Due.ahead {pending : Nat} (h : Due now pending lv sl expiry fate) : now < fate := by
  cases h with
  | first _ hAhead _ _ => exact hAhead
  | above hLevel hAhead hFate =>
    have hTurn := turn_le lv expiry
    have hDvd : 256 ∣ turn lv expiry := Nat.dvd_trans (kSlotMs_dvd hLevel.1) (Nat.dvd_mul_left _ _)
    rw [hFate]
    split_ifs with hEven <;> omega

theorem Due.advance (h : Due now 4 lv sl expiry fate) :
    (lv = 0 ∧ sl = (now + 1) % 256 ∧ fate = now + 1 ∧ expiry ≤ now + 1) ∨
      (¬(lv = 0 ∧ sl = (now + 1) % 256) ∧ Due (now + 1) 1 lv sl expiry fate) := by
  cases h with
  | first hSlot hAhead hTurn hOver =>
    have hPlace : slotFor 0 expiry = expiry % 256 := by simp [slotFor, kSlotMs, SLOTS_PER_LEVEL]
    by_cases hNow : fate = now + 1
    · exact .inl ⟨rfl, by omega, hNow, by omega⟩
    · exact .inr ⟨by omega, .first hSlot (by omega) (by omega) hOver⟩
  | above hLevel hAhead hFate =>
    refine .inr ⟨by omega, .above hLevel ?_ hFate⟩
    rcases hAhead with hAhead | ⟨hPending, -⟩
    all_goals omega

def Settled (now expiry fate : Nat) : Prop :=
  now ≤ expiry ∧ now % 256 = 0 ∧ fate = if expiry % 256 = 0 then expiry + 256 else expiry

theorem Settled.fireTime (h : Settled now expiry fate) : fate = fireTime now expiry := by
  obtain ⟨hLe, hNow, hFate⟩ := h
  rw [hFate, TimerWheel.fireTime]
  split_ifs <;> omega

theorem Due.redistribute {l : Nat} (h : Due now lv l sl expiry fate) (hLevel : 1 ≤ lv) (hNow : now % kSlotMs lv = 0) :
    (l = lv ∧ sl = slotFor lv now ∧ Settled now expiry fate) ∨
      (¬(l = lv ∧ sl = slotFor lv now) ∧ Due now (lv + 1) l sl expiry fate) := by
  have hEven : now % 256 = 0 := Nat.mod_eq_zero_of_dvd (Nat.dvd_trans (kSlotMs_dvd hLevel)
    (Nat.dvd_of_mod_eq_zero hNow))
  cases h with
  | first hSlot hAhead hTurn hOver => exact .inr ⟨by omega, .first hSlot hAhead hTurn hOver⟩
  | above hRange hAhead hFate =>
    have hTurn := turn_le l expiry
    by_cases hPlace : l = lv ∧ slotFor l expiry = slotFor lv now
    · exact .inl ⟨hPlace.1, hPlace.2, by omega, hEven, hFate⟩
    · refine .inr ⟨hPlace, .above hRange ?_ hFate⟩
      rcases hAhead with hAhead | ⟨hPending, hHere⟩
      · exact .inl hAhead
      · by_cases hSame : l = lv
        · subst hSame
          refine absurd ⟨rfl, ?_⟩ hPlace
          rw [slotFor, slotFor, hHere, turn, Nat.mul_div_cancel _ (kSlotMs_pos l)]
        · exact .inr ⟨by omega, hHere⟩

theorem Due.rest {l : Nat} (h : Due now lv l sl expiry fate) (hNow : now % kSlotMs lv ≠ 0) :
    Due now 4 l sl expiry fate := by
  cases h with
  | first hSlot hAhead hTurn hOver => exact .first hSlot hAhead hTurn hOver
  | above hRange hAhead hFate =>
    refine .above hRange ?_ hFate
    rcases hAhead with hAhead | ⟨hPending, hHere⟩
    · exact .inl hAhead
    · refine absurd ?_ hNow
      have hDvd : kSlotMs lv ∣ now := hHere ▸ Nat.dvd_trans (kSlotMs_dvd hPending) (Nat.dvd_mul_left _ _)
      exact Nat.mod_eq_zero_of_dvd hDvd

end TimerWheel
