import GambitRecord.Library.Algorithms
import Mathlib.Algebra.Order.Field.Basic
import Mathlib.Algebra.Order.Field.Rat
import Mathlib.Tactic.Linarith

/-! # The place of the recording display

`bounded`, `validated` and the positions of `UiConfig.cpp`. Floats are taken
exactly; an infinity or a NaN is `none`, and only what the user or a file gives
can be one.
-/

namespace GambitRecord.Plugin.Ui
open Library.Algorithms

abbrev Float := Option ℚ

@[ext]
structure Point (α : Type) where
  x : α
  y : α
  deriving DecidableEq

structure Settings (α : Type) where
  follow_gadmin : Bool
  custom_position : Bool
  anchor : Point α
  scale : α
  opacity : α
  deriving DecidableEq

def bounded (value : Float) (minimum maximum fallback : ℚ) : ℚ :=
  match value with
  | some v => clamp v minimum maximum
  | none => fallback

def validated (value : Settings Float) : Settings ℚ where
  follow_gadmin := value.follow_gadmin
  custom_position := value.custom_position
  scale := bounded value.scale (3 / 4) 2 1
  opacity := bounded value.opacity (1 / 5) 1 (19 / 25)
  anchor :=
    { x := bounded value.anchor.x 0 1 (1 / 2)
      y := bounded value.anchor.y 0 1 1 }

def clamp_position (position : Point Float) (size display : Point ℚ) : Point ℚ where
  x := bounded position.x 0 (max 0 (display.x - size.x)) 0
  y := bounded position.y 0 (max 0 (display.y - size.y)) 0

def hud_bottom (value : Settings ℚ) (display : Point ℚ) : Point ℚ :=
  if value.custom_position then ⟨value.anchor.x * display.x, value.anchor.y * display.y⟩
  else ⟨display.x * (1 / 2), display.y - 18⟩

def hud_position (settings : Settings Float) (size display : Point ℚ) : Point ℚ :=
  let anchor := hud_bottom (validated settings) display
  clamp_position ⟨some (anchor.x - size.x * (1 / 2)), some (anchor.y - size.y)⟩ size display

def hud_anchor (position : Point Float) (size display : Point ℚ) : Point ℚ :=
  let position := clamp_position position size display
  { x := bounded (some ((position.x + size.x * (1 / 2)) / max 1 display.x)) 0 1 (1 / 2)
    y := bounded (some ((position.y + size.y) / max 1 display.y)) 0 1 1 }

/-- The settings after a drag: the anchor becomes a custom position. -/
def Settings.dropped (settings : Settings Float) (anchor : Point ℚ) : Settings Float :=
  { settings with custom_position := true, anchor := ⟨some anchor.x, some anchor.y⟩ }

/-- On the screen, or at its origin where there is no room. -/
structure OnScreen (position size display : Point ℚ) : Prop where
  x : position.x ∈ Set.Icc 0 (max 0 (display.x - size.x))
  y : position.y ∈ Set.Icc 0 (max 0 (display.y - size.y))

variable {value : Float} {minimum maximum fallback : ℚ}

theorem bounded_mem (hfallback : fallback ∈ Set.Icc minimum maximum) :
    bounded value minimum maximum fallback ∈ Set.Icc minimum maximum := by
  cases value with
  | none => exact hfallback
  | some v => exact clamp_mem (hfallback.1.trans hfallback.2)

theorem bounded_of_mem {v : ℚ} (h : v ∈ Set.Icc minimum maximum) :
    bounded (some v) minimum maximum fallback = v := clamp_of_mem h

theorem onScreen_clamp_position (position : Point Float) (size display : Point ℚ) :
    OnScreen (clamp_position position size display) size display where
  x := bounded_mem ⟨le_rfl, le_max_left _ _⟩
  y := bounded_mem ⟨le_rfl, le_max_left _ _⟩

/-- Along one axis: a place inside the screen is given back by its anchor, wherever in the window
the anchor is. -/
theorem bounded_anchor (fallback : ℚ) {place length screen shift : ℚ} (hscreen : 1 ≤ screen)
    (hshift : shift ∈ Set.Icc 0 length)
    (hplace : place ∈ Set.Icc 0 (max 0 (screen - length))) :
    bounded (some (bounded (some ((place + shift) / max 1 screen)) 0 1 fallback * screen - shift))
      0 (max 0 (screen - length)) 0 = place := by
  have hpos : 0 < screen := lt_of_lt_of_le one_pos hscreen
  by_cases hfits : length ≤ screen
  · have hroom : max 0 (screen - length) = screen - length := max_eq_right (sub_nonneg.mpr hfits)
    have hratio : (place + shift) / screen ∈ Set.Icc (0 : ℚ) 1 := by
      rw [hroom] at hplace
      constructor
      · exact div_nonneg (add_nonneg hplace.1 hshift.1) hpos.le
      · rw [div_le_one hpos]
        linarith [hplace.2, hshift.2]
    have hback : (place + shift) / screen * screen - shift = place := by
      rw [div_mul_cancel₀ _ hpos.ne', add_sub_cancel_right]
    rw [max_eq_right hscreen, bounded_of_mem hratio, hback, bounded_of_mem hplace]
  · -- a window larger than the screen stands at its origin
    have hnone : max 0 (screen - length) = 0 :=
      max_eq_left (sub_nonpos.mpr (not_le.mp hfits).le)
    rw [hnone] at hplace ⊢
    calc
      _ = (0 : ℚ) := clamp_self _ _
      _ = place := le_antisymm hplace.1 hplace.2

theorem validated_dropped (settings : Settings Float) (position : Point Float)
    (size display : Point ℚ) :
    (validated (settings.dropped (hud_anchor position size display))).anchor =
      hud_anchor position size display := by
  have hx : (hud_anchor position size display).x ∈ Set.Icc (0 : ℚ) 1 :=
    bounded_mem ⟨by norm_num, by norm_num⟩
  have hy : (hud_anchor position size display).y ∈ Set.Icc (0 : ℚ) 1 :=
    bounded_mem ⟨by norm_num, by norm_num⟩
  rw [validated, Settings.dropped]
  simp only [bounded_of_mem hx, bounded_of_mem hy]

theorem hud_position_dropped (settings : Settings Float) (position : Point Float)
    {size display : Point ℚ} (hx : 0 ≤ size.x) (hy : 0 ≤ size.y) (hdx : 1 ≤ display.x)
    (hdy : 1 ≤ display.y) :
    hud_position (settings.dropped (hud_anchor position size display)) size display =
      clamp_position position size display := by
  have hplace := onScreen_clamp_position position size display
  have hcustom : (validated
      (settings.dropped (hud_anchor position size display))).custom_position = true := rfl
  rw [hud_position, hud_bottom, hcustom, if_pos rfl, validated_dropped]
  have hhalf : size.x * (1 / 2) ∈ Set.Icc 0 size.x := ⟨by linarith, by linarith⟩
  ext
  · exact bounded_anchor (1 / 2) hdx hhalf hplace.x
  · exact bounded_anchor 1 hdy ⟨hy, le_rfl⟩ hplace.y

/-- A display that was dropped stays where the drop left it, and no settings take it off the
screen. -/
theorem hud_stays :
    (∀ (settings : Settings Float) (position : Point Float) (size display : Point ℚ),
      0 ≤ size.x → 0 ≤ size.y → 1 ≤ display.x → 1 ≤ display.y →
        hud_position (settings.dropped (hud_anchor position size display)) size display =
          clamp_position position size display) ∧
    ∀ (settings : Settings Float) (size display : Point ℚ),
      OnScreen (hud_position settings size display) size display := by
  constructor
  · intro settings position size display hx hy hdx hdy
    exact hud_position_dropped settings position hx hy hdx hdy
  · intro settings size display
    exact onScreen_clamp_position _ size display

theorem hud_stays_oversized :
    hud_position (Settings.dropped ⟨true, false, ⟨none, some 3⟩, some 1, none⟩
        (hud_anchor ⟨some (-50), none⟩ ⟨1000, 30⟩ ⟨320, 240⟩)) ⟨1000, 30⟩ ⟨320, 240⟩ =
      clamp_position ⟨some (-50), none⟩ ⟨1000, 30⟩ ⟨320, 240⟩ :=
  hud_stays.1 _ _ _ _ (by norm_num) (by norm_num) (by norm_num) (by norm_num)

end GambitRecord.Plugin.Ui
