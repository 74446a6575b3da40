import InputRelay.Proofs.Session.Pinch
import InputRelay.Proofs.Session.Reports
import InputRelay.Proofs.Touchmap.Walk
import Mathlib.Algebra.Order.Ring.Abs

namespace InputRelay

open Effect

theorem toInt_toInt64_toUInt64 (n : UInt32) : n.toUInt64.toInt64.toInt = n.toNat := by
  have hn : n.toUInt64.toBitVec.toNat = n.toNat := UInt32.toNat_toUInt64 n
  have hlt := n.toNat_lt
  change n.toUInt64.toBitVec.toInt = n.toNat
  rw [BitVec.toInt_eq_toNat_of_lt, hn]
  omega

namespace Screen

def product (value offset : Int32) (frame : UInt32) : Int64 :=
  (value.toInt64 - offset.toInt64) * frame.toUInt64.toInt64

variable {value offset : Int32} {extent frame : UInt32}

theorem scale_of_ne_zero (h : extent ≠ 0) : scale value offset extent frame =
    Int32.ofIntClamp (product value offset frame / extent.toUInt64.toInt64).toInt :=
  if_neg h

theorem abs_product_lt (value offset : Int32) (hframe : frame.toNat < 2 ^ 31) :
    |(value.toInt - offset.toInt) * frame.toNat| < 2 ^ 63 := by
  have hdistance : |value.toInt - offset.toInt| < 2 ^ 32 := by
    have hvalue := value.toInt_lt
    have hvalue' := value.le_toInt
    have hoffset := offset.toInt_lt
    have hoffset' := offset.le_toInt
    rw [abs_lt]
    omega
  have hextent : |(frame.toNat : ℤ)| < 2 ^ 31 := by
    rw [Nat.abs_cast]
    exact_mod_cast hframe
  calc |(value.toInt - offset.toInt) * frame.toNat|
      = |value.toInt - offset.toInt| * |(frame.toNat : ℤ)| := abs_mul _ _
    _ < 2 ^ 32 * 2 ^ 31 := mul_lt_mul'' hdistance hextent (abs_nonneg _) (abs_nonneg _)
    _ = 2 ^ 63 := by norm_num

theorem toInt_product (value offset : Int32) (hframe : frame.toNat < 2 ^ 31) :
    (product value offset frame).toInt = (value.toInt - offset.toInt) * frame.toNat := by
  have hfit := abs_lt.mp (abs_product_lt value offset hframe)
  rw [product, Int64.toInt_mul, toInt_sub_toInt64, toInt_toInt64_toUInt64, Int.bmod_eq_of_le]
  · omega
  · omega

/-- The coordinates that a frame has along a side, or just zero if there are none. -/
def Covers (extent : UInt32) (v : Int32) : Prop :=
  if extent = 0 then v = 0 else 0 ≤ v.toInt ∧ v.toInt < extent.toNat

theorem covers_of_lt_max {v : Int32} {q : ℕ} (hv : v.toInt = q) (hq : q < max extent.toNat 1) :
    Covers extent v := by
  by_cases hextent : extent = 0
  · have hzero : extent.toNat = 0 := congrArg UInt32.toNat hextent
    rw [Covers, if_pos hextent]
    apply Int32.toInt_inj.mp
    rw [hv, Int32.toInt_zero]
    omega
  · have hpos : extent.toNat ≠ 0 := fun h ↦ hextent (UInt32.toNat_inj.mp h)
    rw [Covers, if_neg hextent, hv]
    omega

theorem scaled_lt {d n f : ℕ} (h : d < n) : d * f / n < max f 1 := by
  apply Nat.div_lt_of_lt_mul
  rcases Nat.eq_zero_or_pos f with rfl | hf
  · rw [Nat.mul_zero, Nat.zero_max, Nat.mul_one]
    omega
  · calc d * f < n * f := Nat.mul_lt_mul_of_pos_right h hf
      _ = n * max f 1 := by rw [Nat.max_eq_left hf]

/-- Inside of the content, the distance is scaled without rounding up and without clamping. -/
theorem covers_scale (hle : offset.toInt ≤ value.toInt)
    (hlt : value.toInt < offset.toInt + extent.toNat) (hframe : frame.toNat < 2 ^ 31) :
    Covers frame (scale value offset extent frame) := by
  obtain ⟨d, hd⟩ := Int.eq_ofNat_of_zero_le (sub_nonneg.mpr hle)
  have hextent : extent ≠ 0 := by
    rintro rfl
    have hzero : (0 : UInt32).toNat = 0 := rfl
    omega
  have hlow : d * frame.toNat / extent.toNat < max frame.toNat 1 := scaled_lt (by omega)
  generalize hq : d * frame.toNat / extent.toNat = q at hlow
  have hproduct : (product value offset frame).toInt = (d * frame.toNat : ℕ) := by
    rw [toInt_product value offset hframe, hd, Nat.cast_mul]
  have hquotient : (product value offset frame / extent.toUInt64.toInt64).toInt = q := by
    rw [Int64.toInt_div, hproduct, toInt_toInt64_toUInt64, ← Int.ofNat_tdiv, hq,
      Int.bmod_eq_of_le]
    · omega
    · omega
  have hmin : Int32.minValue.toInt = -2 ^ 31 := rfl
  have hmax : Int32.maxValue.toInt = 2 ^ 31 - 1 := rfl
  refine covers_of_lt_max ?_ hlow
  rw [scale_of_ne_zero hextent, hquotient, Int32.toInt_ofIntClamp]
  · omega
  · omega

theorem covers_windowToFrame {s : Screen} {p : Point} (h : s.onContent p = true)
    (hwidth : s.frame.width.toNat < 2 ^ 31) (hheight : s.frame.height.toNat < 2 ^ 31) :
    Covers s.frame.width (s.windowToFrame p).x ∧ Covers s.frame.height (s.windowToFrame p).y := by
  obtain ⟨⟨hleft, hright⟩, htop, hbottom⟩ := (Rect.contains_iff _ _).mp h
  exact ⟨covers_scale hleft hright hwidth, covers_scale htop hbottom hheight⟩

end Screen

namespace Session

variable {κ : Type} {s : Session κ} {e : MouseClick}

theorem onContent_of_handsOn (hvideo : s.screen.hasVideo = true)
    (hrelative : s.isRelative = false) (hleft : e.button = .left) (hclicks : e.clicks = 2)
    (h : s.handsOn e = true) : s.screen.onContent e.point = true := by
  simp only [handsOn, Bool.and_eq_true, Bool.not_eq_true'] at h
  obtain ⟨⟨⟨-, hborder⟩, -⟩, -⟩ := h
  simpa [Turn.isBorderClick, hvideo, hrelative, hleft, hclicks] using hborder

theorem pointerCalls_handle [CommandSink κ] (s : Session κ) (event : Event) :
    pointerCalls (s.handle event).effects = (s.reported event).toList :=
  Turn.pointerCalls_handle ⟨s, []⟩ event

open Screen in
/-- A double-click that is handed on is told to be on the device, or at zero along a side that the
device does not have. On the way to it nothing leaves 64 bits. -/
theorem doubleClick_lands_on_frame [CommandSink κ] (hvideo : s.screen.hasVideo = true)
    (hrelative : s.isRelative = false) (hleft : e.button = .left) (hclicks : e.clicks = 2)
    (hwidth : s.screen.frame.width.toNat ≤ 2 ^ 31 - 1)
    (hheight : s.screen.frame.height.toNat ≤ 2 ^ 31 - 1) :
    let frame := s.screen.frame
    let content := s.screen.content
    let pixel := s.screen.windowToDrawable e.point
    let point := s.screen.windowToFrame e.point
    ((product pixel.x content.x frame.width).toInt =
        (pixel.x.toInt - content.x.toInt) * frame.width.toNat ∧
      (product pixel.y content.y frame.height).toInt =
        (pixel.y.toInt - content.y.toInt) * frame.height.toNat) ∧
    (pointerCalls (s.handle (.click e)).effects = [] ∨
      pointerCalls (s.handle (.click e)).effects =
          [.click ⟨frame, point⟩ e.state .left s.pointerId (s.bindings.forwarded e.held)] ∧
        Covers frame.width point.x ∧ Covers frame.height point.y) := by
  intro frame content pixel point
  have hwidth : s.screen.frame.width.toNat < 2 ^ 31 := by omega
  have hheight : s.screen.frame.height.toNat < 2 ^ 31 := by omega
  refine ⟨⟨toInt_product _ _ hwidth, toInt_product _ _ hheight⟩, ?_⟩
  rw [pointerCalls_handle, reported]
  cases hon : s.handsOn e with
  | false => exact Or.inl rfl
  | true =>
    have hcontent := onContent_of_handsOn hvideo hrelative hleft hclicks hon
    refine Or.inr ⟨?_, covers_windowToFrame hcontent hwidth hheight⟩
    rw [if_pos rfl, position, hrelative, hleft]
    rfl

def secondPress (p : Point) : MouseClick :=
  ⟨.left, .pressed, p, 2, .left, .none, false⟩

def widest : Screen :=
  { Screen.ofFrame ⟨0x7fffffff, 1080⟩ with content := ⟨-0x80000000, 0, 0xffffffff, 100⟩ }

theorem doubleClick_lands_on_frame_corner : ∃ s : Session Channel,
    Run {} { Collaborators.pointing false with screen := widest } [] s ∧
      (s.screen.hasVideo = true ∧ s.isRelative = false ∧
        s.screen.frame.width.toNat ≤ 2 ^ 31 - 1 ∧ s.screen.frame.height.toNat ≤ 2 ^ 31 - 1) ∧
      pointerCalls (s.handle (.click (secondPress ⟨0x7ffffffe, 99⟩))).effects =
        [.click ⟨widest.frame, ⟨0x7ffffffe, 1069⟩⟩ .pressed .left .genericFinger .left] ∧
      Screen.Covers widest.frame.width 0x7ffffffe ∧ Screen.Covers widest.frame.height 1069 := by
  obtain ⟨s, hrun, hscreen, hrelative, htold⟩ : ∃ s : Session Channel,
      Run {} { Collaborators.pointing false with screen := widest } [] s ∧ s.screen = widest ∧
        s.isRelative = false ∧ s.reported (.click (secondPress ⟨0x7ffffffe, 99⟩)) =
          some (.click ⟨widest.frame, ⟨0x7ffffffe, 1069⟩⟩ .pressed .left .genericFinger .left) :=
    ⟨_, .start rfl, rfl, rfl, rfl⟩
  have hvideo : s.screen.hasVideo = true := by rw [hscreen]; rfl
  have hwidth : s.screen.frame.width.toNat ≤ 2 ^ 31 - 1 := by rw [hscreen]; decide
  have hheight : s.screen.frame.height.toNat ≤ 2 ^ 31 - 1 := by rw [hscreen]; decide
  obtain ⟨-, hcalls⟩ := doubleClick_lands_on_frame (e := secondPress ⟨0x7ffffffe, 99⟩) hvideo
    hrelative rfl rfl hwidth hheight
  rw [pointerCalls_handle, htold, hscreen] at hcalls
  obtain hnone | ⟨-, hcovers⟩ := hcalls
  · cases hnone
  · have hpoint : widest.windowToFrame ⟨0x7ffffffe, 99⟩ = ⟨0x7ffffffe, 1069⟩ := rfl
    rw [secondPress, hpoint] at hcovers
    refine ⟨s, hrun, ⟨hvideo, hrelative, hwidth, hheight⟩, ?_, hcovers⟩
    rw [pointerCalls_handle, htold]
    rfl

def unframed : Screen :=
  { Screen.ofFrame ⟨0, 1920⟩ with content := ⟨0, 0, 100, 100⟩ }

/-- On a frame of no width, a double-click on the device is told a coordinate that is not on it. -/
theorem doubleClick_on_empty_frame : ∃ (s : Session Channel) (point : Point),
    Run {} { Collaborators.pointing false with screen := unframed } [] s ∧ s.screen = unframed ∧
      s.screen.hasVideo = true ∧ s.isRelative = false ∧
      unframed.frame.width.toNat ≤ 2 ^ 31 - 1 ∧ unframed.frame.height.toNat ≤ 2 ^ 31 - 1 ∧
      pointerCalls (s.handle (.click (secondPress ⟨50, 50⟩))).effects =
        [.click ⟨unframed.frame, point⟩ .pressed .left .genericFinger .left] ∧
      ¬ (0 ≤ point.x.toInt ∧ point.x.toInt < unframed.frame.width.toNat) :=
  ⟨_, ⟨0, 960⟩, .start rfl, rfl, rfl, rfl, by decide, by decide,
    (pointerCalls_handle _ _).trans rfl, by decide⟩

end Session

end InputRelay
