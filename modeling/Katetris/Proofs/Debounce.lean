import Katetris.Debounce

set_option autoImplicit false

/-! # The debounced state against the pin

The first edge after an expiry is seen and toggles the state, the edges after it until the next
expiry are not. So if `n` edges come between two expiries, the pin has flipped `n` times and the
state once (or not at all for `n = 0`): when events are enabled again the two agree iff `n` is zero
or odd. -/

namespace Katetris

open Lib

/-- While line events are enabled the stored state is the pin level. -/
def FollowsPin (b : ButtonLine) : Prop := b.enabled = true → b.state = b.level

/-- The number of edges between two expiries is zero or odd: every blind window loses an even number
    of them. The first argument counts the edges since the last expiry. -/
def EvenWindows : Nat → List LineEvent → Prop
  | _, [] => True
  | n, .edge :: es => EvenWindows (n + 1) es
  | n, .expire :: es => (n = 0 ∨ n % 2 = 1) ∧ EvenWindows 0 es

/-- The line after `n` edges since the last expiry, if it was in step with the pin then. -/
structure SinceExpiry (n : Nat) (b : ButtonLine) : Prop where
  enabled : b.enabled = decide (n = 0)
  armed : b.armed = decide (n ≠ 0)
  state : b.state = b.level ↔ n = 0 ∨ n % 2 = 1

theorem sinceExpiry_edge {n : Nat} {b : ButtonLine} (h : SinceExpiry n b) :
    SinceExpiry (n + 1) (lineStep b .edge) := by
  obtain ⟨henabled, harmed, hstate⟩ := h
  obtain ⟨level, enabled, armed, state⟩ := b
  simp only at henabled harmed hstate
  by_cases hn : n = 0
  · -- the edge is seen: pin and state flip together
    subst hn henabled harmed
    simp only [true_or, iff_true] at hstate
    subst hstate
    exact ⟨by simp [lineStep, buttonCb], by simp [lineStep, buttonCb], by simp [lineStep, buttonCb]⟩
  · -- the edge is lost: only the pin flips
    have hflip : state = !level ↔ (n + 1) % 2 = 1 := by
      have hodd : state = level ↔ n % 2 = 1 := hstate.trans (or_iff_right hn)
      have hnot : state = !level ↔ ¬state = level := by cases state <;> cases level <;> simp
      rw [hnot, hodd]
      omega
    subst henabled harmed
    simp only [hn, decide_false, lineStep]
    exact ⟨by simp, by simp [hn], by simpa using hflip⟩

theorem sinceExpiry_expire {n : Nat} {b : ButtonLine} (h : SinceExpiry n b)
    (hn : n = 0 ∨ n % 2 = 1) : SinceExpiry 0 (lineStep b .expire) := by
  obtain ⟨henabled, harmed, hstate⟩ := h
  have hagree := hstate.2 hn
  by_cases h0 : n = 0
  · subst h0
    simp only [lineStep, harmed]
    exact ⟨henabled, harmed, by simpa using hagree⟩
  · simp only [lineStep, harmed, vtCb]
    exact ⟨by simp [h0], by simp [h0], by simpa [h0] using hagree⟩

theorem SinceExpiry.followsPin {n : Nat} {b : ButtonLine} (h : SinceExpiry n b) : FollowsPin b := by
  intro henabled
  rw [h.enabled, decide_eq_true_eq] at henabled
  exact h.state.2 (Or.inl henabled)

/-- After an expiry events are enabled, and the state is what it was. -/
theorem followsPin_expire {n : Nat} {b : ButtonLine} (h : SinceExpiry n b) :
    FollowsPin (lineStep b .expire) ↔ n = 0 ∨ n % 2 = 1 := by
  rw [← h.state]
  by_cases h0 : n = 0
  · simp [FollowsPin, lineStep, h.armed, h.enabled, h0]
  · simp [FollowsPin, lineStep, vtCb, h.armed, h0]

theorem followsPin_run (es : List LineEvent) (n : Nat) (b : ButtonLine) (h : SinceExpiry n b) :
    AllStates lineStep FollowsPin b es ↔ EvenWindows n es := by
  induction es generalizing n b with
  | nil => exact iff_of_true h.followsPin trivial
  | cons e es ih =>
      cases e with
      | edge =>
          rw [EvenWindows, ← ih (n + 1) _ (sinceExpiry_edge h)]
          exact and_iff_right h.followsPin
      | expire =>
          rw [EvenWindows]
          refine ⟨fun hstates => ?_, fun hwindows => ?_⟩
          · obtain ⟨_, hrest⟩ := hstates
            have hn := (followsPin_expire h).1 hrest.first
            exact ⟨hn, (ih 0 _ (sinceExpiry_expire h hn)).1 hrest⟩
          · obtain ⟨hn, hrest⟩ := hwindows
            exact ⟨h.followsPin, (ih 0 _ (sinceExpiry_expire h hn)).2 hrest⟩

/-- **The state follows the pin exactly when every blind window loses an even number of edges.** -/
theorem followsPin_iff (es : List LineEvent) :
    AllStates lineStep FollowsPin lineInit es ↔ EvenWindows 0 es :=
  followsPin_run es 0 lineInit ⟨rfl, rfl, by simp [lineInit]⟩

/-- A tap shorter than the blind window: the release is lost and the state stays pressed. -/
theorem shortTap_not_followed :
    ¬AllStates lineStep FollowsPin lineInit [.edge, .edge, .expire] := by
  intro h
  have hlast : FollowsPin ⟨false, true, false, true⟩ := h.last
  exact absurd (hlast rfl) (by decide)

end Katetris
