/-
  The pixel buffers of a new window (ui/title_bar.cpp, ui/window.cpp; `createWindow` of
  ui/compositor.cpp).

  `createWindow` takes any width and height from a program.  A body is filled by one `memset` of the
  size that was allocated.  A title bar is painted pixel by pixel: two decorations of 10 pixels, one
  from each end of a row, what is between them, and three lights.  Its buffer has `width * 31 * 4`
  bytes, computed modulo 2^32, and nothing looks at the width, so a bar narrower than a decoration
  is painted over the end of its buffer.

  1. **Program** — the constructors, with the stores they make by their offset in the buffer.

  2. **Pixels** — an offset modulo 2^32 is a pixel modulo 2^30, and a fraction of it
     (`inside_pixel`).

  3. **The condition** — `createWindow_inside_iff`: no memory for the bar, or a width that is modulo
     2^30 between 10 and 8456 and does not send the loop between the decorations round the whole
     memory.
-/
import TedkOS.Klibs.ArrFile
import TedkOS.Ui.Widgets

namespace TedkOS.Ui

open Klibs KMemory

/-! ## The program -/

def LightSideLength : Nat := 16
def LightVerticalOffset : Nat := 6
def SideDecoratorWidth : Nat := 10

/-- `LightOffsets[i]`. -/
def LightOffsets (i : Nat) : Nat := [10, 34, 58].getD i 0

/-- `CalcRGBASize(width, height)`, as a `size_t`. -/
def CalcRGBASize (width height : int32_t) : BitVec 32 := width * height * 4

/-- What `title_bar.carr` holds. -/
structure Art where
  leftDecorator : Nat → BitVec 8
  rightDecorator : Nat → BitVec 8
  centerDecorator : Nat → BitVec 8
  lights : Nat → Nat → BitVec 8

/-- A heap as a `new` finds it. -/
structure HeapFound where
  src : PageSupply
  mem : KMem

/-- A pixel buffer once its constructor is done with it: its size, the stores at an offset in it,
    and the exception that ended the constructor, if one did. -/
structure Buffer where
  size : BitVec 32
  stores : List (BitVec 32 × BitVec 8)
  stop : Option Stop

/-- `(row * width + x + shift) * 4`, the offset of `pix`. -/
def pixAt (width : int32_t) (row x : Nat) (shift : int32_t) : BitVec 32 :=
  (BitVec.ofNat 32 row * width + BitVec.ofNat 32 x + shift) * 4

/-- One of the loops over `x` that paint the background of row `y`. -/
def paintRow (width : int32_t) (y count : Nat) (shift : int32_t) (srcPix : Nat → Nat → BitVec 8) :
    List (BitVec 32 × BitVec 8) :=
  (List.range count).flatMap fun x =>
    (List.range 4).map fun z => (pixAt width y x shift + BitVec.ofNat 32 z, srcPix x z)

/-- How often the loop between the decorations runs. -/
def centerCount (width : int32_t) : Nat :=
  (width - BitVec.ofNat 32 (SideDecoratorWidth * 2)).toInt.toNat

/-- "paint background". -/
def background (art : Art) (width : int32_t) : List (BitVec 32 × BitVec 8) :=
  (List.range DecoratorHeight.toNat).flatMap fun y =>
    paintRow width y SideDecoratorWidth 0
      (fun x z => art.leftDecorator ((y * SideDecoratorWidth + x) * 4 + z)) ++
    (paintRow width y SideDecoratorWidth (width - BitVec.ofNat 32 SideDecoratorWidth)
      (fun x z => art.rightDecorator ((y * SideDecoratorWidth + x) * 4 + z)) ++
    paintRow width y (centerCount width) (BitVec.ofNat 32 SideDecoratorWidth)
      (fun _ z => art.centerDecorator (y * 4 + z)))

section Painting

-- `alphaBlending(p1, p2, alpha / 255.0F)`, as a byte
variable (alphaBlending : BitVec 8 → BitVec 8 → BitVec 8 → BitVec 8)

/-- The rounds of the loops over `y`, `i`, `x` and `z` that paint the lights. -/
def lightRounds : List (Nat × Nat × Nat × Nat) :=
  (List.range LightSideLength).flatMap fun y => (List.range 3).flatMap fun i =>
    (List.range LightSideLength).flatMap fun x => (List.range 3).map fun z => (y, i, x, z)

/-- The offset of the byte a round paints. -/
def lightOffset (width : int32_t) : Nat × Nat × Nat × Nat → BitVec 32
  | (y, i, x, z) =>
    pixAt width (y + LightVerticalOffset) x (BitVec.ofNat 32 (LightOffsets i)) + BitVec.ofNat 32 z

/-- The buffer after the stores. -/
def bufferAfter (held : BitVec 32 → BitVec 8) (stores : List (BitVec 32 × BitVec 8)) :
    BitVec 32 → BitVec 8 :=
  stores.foldl (fun mem st => Function.update mem st.1 st.2) held

/-- "paint lights", over the background. -/
def paintLights (art : Art) (width : int32_t) (held : BitVec 32 → BitVec 8)
    (stores : List (BitVec 32 × BitVec 8)) : List (BitVec 32 × BitVec 8) :=
  lightRounds.foldl (fun stores p =>
    let off := lightOffset width p
    let srcPix := fun z => art.lights p.2.1 ((p.1 * LightSideLength + p.2.2.1) * 4 + z)
    stores ++ [(off, alphaBlending (bufferAfter held stores off) (srcPix p.2.2.2) (srcPix 3))])
    stores

/-- `TitleBar::TitleBar(width, x, y)`; `held` is what memory holds at the new buffer, and `heaps`
    what `new` finds for the buffer and for the table of lights. -/
def TitleBar (art : Art) (held : BitVec 32 → BitVec 8) (width : int32_t)
    (heaps : Nat → HeapFound) : Buffer :=
  let size := CalcRGBASize width DecoratorHeight
  match operatorNew size.toNat (heaps 0).src (heaps 0).mem with
  | .error e => ⟨size, [], some e⟩
  | .ok _ =>
    match operatorNew 12 (heaps 1).src (heaps 1).mem with
    | .error e => ⟨size, background art width, some e⟩
    | .ok _ => ⟨size, paintLights alphaBlending art width held (background art width), none⟩

/-- `WindowBody::WindowBody(width, height, x, y)`. -/
def WindowBody (width height : int32_t) (heap : HeapFound) : Buffer :=
  let size := CalcRGBASize width height
  match operatorNew size.toNat heap.src heap.mem with
  | .error e => ⟨size, [], some e⟩
  | .ok _ => ⟨size, (memset 0 0xff size.toNat).map fun st => (BitVec.ofNat 32 st.1, st.2), none⟩

/-- `createWindow(width, height)`: the buffers of the bar and of the body, if it gets that far. -/
def createWindow (art : Art) (held : BitVec 32 → BitVec 8) (width height : int32_t)
    (heaps : Nat → HeapFound) :
    List Buffer :=
  let bar := TitleBar alphaBlending art held width heaps
  match bar.stop with
  | some _ => [bar]
  | none => [bar, WindowBody (width - 4) (height - DecoratorHeight - 4) (heaps 2)]

/-! ## The purpose -/

/-- Every store is made inside the buffer. -/
def Buffer.Inside (b : Buffer) : Prop := ∀ st ∈ b.stores, st.1 < b.size

/-- The constructors of a window write inside their buffers. -/
def WritesInside (art : Art) (held : BitVec 32 → BitVec 8) (width height : int32_t)
    (heaps : Nat → HeapFound) : Prop :=
  ∀ b ∈ createWindow alphaBlending art held width height heaps, b.Inside

end Painting

/-- The widths a title bar is right for.  Modulo 2^30 they are 10, …, 8456; the second line is 2^30
    below, where the loop between the decorations does not run, and the third 2^31 below, where it
    must not wrap. -/
def FitsBar (width : int32_t) : Prop :=
  (10 ≤ width.toInt ∧ width.toInt ≤ 8456) ∨
  (10 - 0x40000000 ≤ width.toInt ∧ width.toInt ≤ 8456 - 0x40000000) ∨
  (20 - 0x80000000 ≤ width.toInt ∧ width.toInt ≤ 8456 - 0x80000000)

/-! ## Pixels

  The buffer has `31 * width` pixels of four bytes, all modulo 2^32.  So an offset is inside
  exactly if its pixel is, modulo 2^30. -/

section Pixels

variable {width : int32_t}

/-- The size of a bar, in pixels. -/
theorem toNat_barSize : (CalcRGBASize width DecoratorHeight).toNat =
    4 * (31 * (width.toNat % 0x40000000) % 0x40000000) := by
  unfold CalcRGBASize DecoratorHeight
  rw [BitVec.toNat_mul, BitVec.toNat_mul]
  show width.toNat * 31 % 0x100000000 * 4 % 0x100000000 = _
  omega

/-- **A byte of a pixel is inside** exactly if the pixel is. -/
theorem inside_pixel (a : BitVec 32) {z : Nat} (hz : z < 4) :
    a * 4 + BitVec.ofNat 32 z < CalcRGBASize width DecoratorHeight ↔
      a.toNat % 0x40000000 < 31 * (width.toNat % 0x40000000) % 0x40000000 := by
  rw [BitVec.lt_def, toNat_barSize, BitVec.toNat_add, BitVec.toNat_mul, BitVec.toNat_ofNat]
  show (a.toNat * 4 % 0x100000000 + z % 0x100000000) % 0x100000000 < _ ↔ _
  omega

/-- The pixel that `pix` points to. -/
theorem toNat_pix (row x : Nat) (shift : int32_t) :
    (BitVec.ofNat 32 row * width + BitVec.ofNat 32 x + shift).toNat % 0x40000000 =
      (row * (width.toNat % 0x40000000) + x + shift.toNat) % 0x40000000 := by
  rw [BitVec.toNat_add, BitVec.toNat_add, BitVec.toNat_mul, BitVec.toNat_ofNat, BitVec.toNat_ofNat]
  have hmul : row % 0x100000000 * width.toNat % 0x40000000 =
      row * (width.toNat % 0x40000000) % 0x40000000 := by
    rw [Nat.mul_mod, Nat.mod_mod_of_dvd row (by decide), Nat.mul_mod row, Nat.mod_mod]
  show ((row % 0x100000000 * width.toNat % 0x100000000 + x % 0x100000000) % 0x100000000 +
    shift.toNat) %
    0x100000000 % 0x40000000 = _
  omega

/-- One loop over `x`. -/
theorem paintRow_inside_iff {y count : Nat} {shift : int32_t} {srcPix : Nat → Nat → BitVec 8} :
    (∀ st ∈ paintRow width y count shift srcPix,
      st.1 < CalcRGBASize width DecoratorHeight) ↔
    ∀ x, x < count → (y * (width.toNat % 0x40000000) + x + shift.toNat) % 0x40000000 <
      31 * (width.toNat % 0x40000000) % 0x40000000 := by
  unfold paintRow
  constructor
  · intro h x hx
    have hmem : (pixAt width y x shift + BitVec.ofNat 32 0, srcPix x 0) ∈ (List.range count).flatMap
      fun x =>
        (List.range 4).map fun z => (pixAt width y x shift + BitVec.ofNat 32 z, srcPix x z) :=
      List.mem_flatMap.mpr ⟨x, List.mem_range.mpr hx, List.mem_map.mpr ⟨0, by decide, rfl⟩⟩
    rw [← toNat_pix]
    exact (inside_pixel _ (by decide)).mp (h _ hmem)
  · intro h st hst
    obtain ⟨x, hx, hst⟩ := List.mem_flatMap.mp hst
    obtain ⟨z, hz, rfl⟩ := List.mem_map.mp hst
    refine (inside_pixel _ (List.mem_range.mp hz)).mpr ?_
    rw [toNat_pix]
    exact h x (List.mem_range.mp hx)

/-- The pixel `shift` to the right of the `x`-th of row `y` is in the buffer. -/
def PixelInside (width : int32_t) (y x shift : Nat) : Prop :=
  (y * (width.toNat % 0x40000000) + x + shift) % 0x40000000 <
    31 * (width.toNat % 0x40000000) % 0x40000000

/-- The background, row by row. -/
theorem background_inside_iff {art : Art} :
    (∀ st ∈ background art width, st.1 < CalcRGBASize width DecoratorHeight) ↔
    ∀ y, y < 31 → (∀ x, x < 10 → PixelInside width y x 0) ∧
      (∀ x, x < 10 → PixelInside width y x (width - 10).toNat) ∧
      ∀ x, x < centerCount width → PixelInside width y x 10 := by
  unfold background
  rw [List.forall_mem_flatMap]
  constructor
  · intro h y hy
    have hrow := h y (List.mem_range.mpr hy)
    rw [List.forall_mem_append, List.forall_mem_append] at hrow
    exact ⟨paintRow_inside_iff.mp hrow.1, paintRow_inside_iff.mp hrow.2.1,
      paintRow_inside_iff.mp hrow.2.2⟩
  · intro h y hy
    obtain ⟨hleft, hright, hcenter⟩ := h y (List.mem_range.mp hy)
    rw [List.forall_mem_append, List.forall_mem_append]
    exact ⟨paintRow_inside_iff.mpr hleft, paintRow_inside_iff.mpr hright,
      paintRow_inside_iff.mpr hcenter⟩

/-- How often the loop between the decorations runs, by the bits of the width. -/
theorem centerCount_eq :
    centerCount width = if 20 ≤ width.toNat ∧ width.toNat < 0x80000014 then width.toNat - 20
      else 0 := by
  have hlt := width.isLt
  have hsub : (width - BitVec.ofNat 32 (SideDecoratorWidth * 2)).toNat =
      (0x100000000 - 20 + width.toNat) % 0x100000000 := by
    rw [BitVec.toNat_sub]
    rfl
  unfold centerCount
  rw [BitVec.toInt_eq_toNat_cond, hsub]
  split <;> split <;> omega

/-! ## The condition

  What is needed of the width, so that the first and the last pixel of each row are in the
  buffer.  A width that differs by 2^30 asks for the same buffer, which is why the condition has
  several ranges. -/

/-- **Too narrow or too wide a bar**: a corner of the left decoration is outside, or the loop
    between the decorations gets there. -/
theorem fitsBar_of_inside
    (hsize : (CalcRGBASize width DecoratorHeight).toNat ≤ 1024 * 1024)
    (h : ∀ y, y < 31 → (∀ x, x < 10 → PixelInside width y x 0) ∧
      (∀ x, x < 10 → PixelInside width y x (width - 10).toNat) ∧
      ∀ x, x < centerCount width → PixelInside width y x 10) : FitsBar width := by
  have hlt := width.isLt
  have hsecond := (h 1 (by omega)).1 0 (by omega)
  have hlast := (h 30 (by omega)).1 9 (by omega)
  have hcenter := (h 0 (by omega)).2.2 (31 * (width.toNat % 0x40000000))
  rw [toNat_barSize] at hsize
  rw [centerCount_eq] at hcenter
  unfold PixelInside at hsecond hlast hcenter
  obtain ⟨v, hv⟩ : ∃ v, v = width.toNat % 0x40000000 := ⟨_, rfl⟩
  rw [← hv] at hsize hsecond hlast hcenter
  -- the first pixel of the second row bounds the width, and so nothing wraps
  have hsmall : v < 0x40000 := by
    rw [Nat.one_mul, Nat.add_zero, Nat.mod_eq_of_lt (by omega)] at hsecond
    omega
  have hwhole : 31 * v % 0x40000000 = 31 * v := Nat.mod_eq_of_lt (by omega)
  rw [hwhole] at hsize hlast hcenter
  rw [Nat.mod_eq_of_lt (show 30 * v + 9 + 0 < 0x40000000 by omega)] at hlast
  rw [Nat.mod_eq_of_lt (show 0 * v + 31 * v + 10 < 0x40000000 by omega)] at hcenter
  unfold FitsBar
  rw [BitVec.toInt_eq_toNat_cond]
  split at hcenter <;> split <;> omega

/-- What a right width is, by its bits. -/
theorem FitsBar.spec (h : FitsBar width) :
    10 ≤ width.toNat % 0x40000000 ∧ width.toNat % 0x40000000 ≤ 8456 ∧
    centerCount width ≤ width.toNat % 0x40000000 - 20 := by
  have hlt := width.isLt
  rw [centerCount_eq]
  unfold FitsBar at h
  rw [BitVec.toInt_eq_toNat_cond] at h
  split at h <;> split <;> omega

/-- The pixels of a bar that is not too wide are counted without wrapping. -/
theorem pixelInside_of_lt {y x shift : Nat} (hwidth : width.toNat % 0x40000000 ≤ 8456)
    (h : y * (width.toNat % 0x40000000) + x + shift < 31 * (width.toNat % 0x40000000)) :
    PixelInside width y x shift := by
  have hbar : 31 * (width.toNat % 0x40000000) < 0x40000000 := by omega
  unfold PixelInside
  rw [Nat.mod_eq_of_lt hbar, Nat.mod_eq_of_lt (Nat.lt_trans h hbar)]
  exact h

/-- **A right width** keeps the background inside. -/
theorem FitsBar.background (h : FitsBar width) :
    ∀ y, y < 31 → (∀ x, x < 10 → PixelInside width y x 0) ∧
    (∀ x, x < 10 → PixelInside width y x (width - 10).toNat) ∧ ∀ x, x < centerCount width →
    PixelInside width y x 10 := by
  obtain ⟨hleast, hmost, hcount⟩ := h.spec
  intro y hy
  have hrow : y * (width.toNat % 0x40000000) ≤ 30 * (width.toNat % 0x40000000) :=
    Nat.mul_le_mul_right _ (Nat.le_of_lt_succ hy)
  refine ⟨fun x hx => pixelInside_of_lt hmost (by omega), fun x hx => ?_,
    fun x hx => pixelInside_of_lt hmost (by omega)⟩
  have hright : (width - 10).toNat % 0x40000000 = width.toNat % 0x40000000 - 10 := by
    have hlt := width.isLt
    rw [BitVec.toNat_sub]
    show (0x100000000 - 10 + width.toNat) % 0x100000000 % 0x40000000 = _
    omega
  have hpixel : PixelInside width y x (width.toNat % 0x40000000 - 10) :=
    pixelInside_of_lt hmost (by omega)
  unfold PixelInside at hpixel ⊢
  rw [← hright, Nat.add_mod_mod] at hpixel
  exact hpixel

/-- The lights lie where both decorations of a right width would. -/
theorem FitsBar.lights (h : FitsBar width) : ∀ p ∈ lightRounds,
    lightOffset width p < CalcRGBASize width DecoratorHeight := by
  obtain ⟨hleast, hmost, -⟩ := h.spec
  rintro ⟨y, i, x, z⟩ hp
  obtain ⟨y', hy, hp⟩ := List.mem_flatMap.mp hp
  obtain ⟨i', hi, hp⟩ := List.mem_flatMap.mp hp
  obtain ⟨x', hx, hp⟩ := List.mem_flatMap.mp hp
  obtain ⟨z', hz, he⟩ := List.mem_map.mp hp
  obtain ⟨rfl, rfl, rfl, rfl⟩ : y' = y ∧ i' = i ∧ x' = x ∧ z' = z := by simpa using he
  have hy' : y' < 16 := List.mem_range.mp hy
  have hx' : x' < 16 := List.mem_range.mp hx
  have hz' : z' < 3 := List.mem_range.mp hz
  have hoffset : ∀ i, LightOffsets i ≤ 58 := by
    intro i
    match i with
    | 0 => decide
    | 1 => decide
    | 2 => decide
    | i + 3 => exact Nat.zero_le _
  have hshift : (BitVec.ofNat 32 (LightOffsets i')).toNat = LightOffsets i' := by
    have hle := hoffset i'
    rw [BitVec.toNat_ofNat]
    omega
  have hrow : (y' + LightVerticalOffset) * (width.toNat % 0x40000000) ≤
      21 * (width.toNat % 0x40000000) :=
    Nat.mul_le_mul_right _ (by unfold LightVerticalOffset; omega)
  have hle := hoffset i'
  refine (inside_pixel _ (by omega)).mpr ?_
  rw [toNat_pix, hshift]
  exact pixelInside_of_lt hmost (by omega)

end Pixels

/-! ## The constructors

  A constructor writes inside its buffer exactly if each loop does, and the loops are one after
  another. -/

section Constructors

variable {alphaBlending : BitVec 8 → BitVec 8 → BitVec 8 → BitVec 8} {art : Art}
    {held : BitVec 32 → BitVec 8}
  {width height : int32_t} {heaps : Nat → HeapFound}

/-- Painting the lights stores at their offsets, whatever the colours. -/
theorem map_fst_paintLights (stores : List (BitVec 32 × BitVec 8)) :
    (paintLights alphaBlending art width held stores).map Prod.fst =
      stores.map Prod.fst ++ lightRounds.map (lightOffset width) := by
  unfold paintLights
  generalize lightRounds = rounds
  induction rounds generalizing stores with
  | nil => rw [List.foldl_nil, List.map_nil, List.append_nil]
  | cons p rounds ih =>
    rw [List.foldl_cons, ih, List.map_append, List.append_assoc]
    rfl

/-- The stores of the painted lights are inside a buffer if those under them are, and the lights
    are. -/
theorem paintLights_inside_iff {stores : List (BitVec 32 × BitVec 8)} {size : BitVec 32} :
    (∀ st ∈ paintLights alphaBlending art width held stores, st.1 < size) ↔
      (∀ st ∈ stores, st.1 < size) ∧ ∀ p ∈ lightRounds, lightOffset width p < size := by
  have hmap : ∀ l : List (BitVec 32 × BitVec 8), (∀ off ∈ l.map Prod.fst, off < size) ↔
      ∀ st ∈ l, st.1 < size :=
    fun l => List.forall_mem_map
  rw [← hmap, map_fst_paintLights, List.forall_mem_append, hmap, List.forall_mem_map]

/-- **A body** is filled from its start to its end. -/
theorem WindowBody_inside (heap : HeapFound) : (WindowBody width height heap).Inside := by
  intro st
  unfold WindowBody
  dsimp only
  cases operatorNew (CalcRGBASize width height).toNat heap.src heap.mem with
  | error e => exact fun hst => nomatch hst
  | ok r =>
    intro hst
    obtain ⟨⟨i, b⟩, hi, rfl⟩ := List.mem_map.mp hst
    have hin := (mem_memcpy.mp ⟨b, hi⟩).2
    rw [List.length_replicate, Nat.zero_add] at hin
    show BitVec.ofNat 32 i < CalcRGBASize width height
    rw [BitVec.lt_def, BitVec.toNat_ofNat]
    exact Nat.lt_of_le_of_lt (Nat.mod_le _ _) hin

/-- **A title bar**: with a buffer, it is painted inside exactly if the width is right. -/
theorem TitleBar_inside_iff : (TitleBar alphaBlending art held width heaps).Inside ↔
    ((∃ r, operatorNew (CalcRGBASize width DecoratorHeight).toNat (heaps 0).src (heaps 0).mem =
      .ok r) → FitsBar width) := by
  unfold TitleBar
  dsimp only
  cases hbar : operatorNew (CalcRGBASize width DecoratorHeight).toNat (heaps 0).src
      (heaps 0).mem with
  | error e =>
    refine iff_of_true (fun st hst => nomatch hst) fun h => ?_
    obtain ⟨r, hr⟩ := h
    cases hr
  | ok r =>
    have hsize := ArrFile.operatorNew_le hbar
    rw [forall_prop_of_true ⟨r, rfl⟩]
    constructor
    · intro h
      -- whether or not there is memory for the lights, the background is painted
      have hback : ∀ st ∈ background art width, st.1 < CalcRGBASize width DecoratorHeight := by
        cases hlights : operatorNew 12 (heaps 1).src (heaps 1).mem with
        | error e =>
          rw [hlights] at h
          exact h
        | ok r' =>
          rw [hlights] at h
          unfold Buffer.Inside at h
          dsimp only at h
          rw [paintLights_inside_iff] at h
          exact h.1
      exact fitsBar_of_inside hsize (background_inside_iff.mp hback)
    · intro h
      have hback : ∀ st ∈ background art width, st.1 < CalcRGBASize width DecoratorHeight :=
        background_inside_iff.mpr h.background
      cases operatorNew 12 (heaps 1).src (heaps 1).mem with
      | error e => exact hback
      | ok r' =>
        unfold Buffer.Inside
        dsimp only
        exact paintLights_inside_iff.mpr ⟨hback, h.lights⟩

/-- **A window** is built inside its buffers exactly if its bar is. -/
theorem writesInside_iff : WritesInside alphaBlending art held width height heaps ↔
    (TitleBar alphaBlending art held width heaps).Inside := by
  unfold WritesInside createWindow
  dsimp only
  cases (TitleBar alphaBlending art held width heaps).stop with
  | some e => exact List.forall_mem_singleton
  | none =>
    rw [List.forall_mem_cons, List.forall_mem_singleton]
    exact and_iff_left (WindowBody_inside _)

/-- **The window a program asks for** is built inside its buffers exactly if there is no memory for
    its bar, or the bar is of a right width; the height does not matter. -/
theorem createWindow_inside_iff : WritesInside alphaBlending art held width height heaps ↔
    ((∃ r, operatorNew (CalcRGBASize width DecoratorHeight).toNat (heaps 0).src (heaps 0).mem =
      .ok r) → FitsBar width) :=
  writesInside_iff.trans TitleBar_inside_iff

end Constructors

/-- A window of no width has a bar of no bytes, which is painted. -/
theorem createWindow_no_width :
    ¬ ∀ (alphaBlending : BitVec 8 → BitVec 8 → BitVec 8 → BitVec 8) (art : Art)
    (held : BitVec 32 → BitVec 8) (width height : int32_t) (heaps : Nat → HeapFound),
    WritesInside alphaBlending art held width height heaps := by
  intro h
  have hinside :=
    writesInside_iff.mp (h (fun p _ _ => p) ⟨fun _ => 0, fun _ => 0, fun _ => 0, fun _ _ => 0⟩
      (fun _ => 0) 0 100 (fun _ => ⟨⟨none, none, false⟩, ArrFile.threeBlocks⟩))
  have hfits := TitleBar_inside_iff.mp hinside ⟨_, rfl⟩
  unfold FitsBar at hfits
  revert hfits
  decide

end TedkOS.Ui
