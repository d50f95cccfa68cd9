/-
  Copying the build buffer to the video memory (ui/vbe.cpp).

  The build buffer has three bytes a pixel: red, green, blue.  The video memory has three or four,
  and `put` of a format says where it has the colours.

  1. **Program** — `HelpBGR` and `HelpRGBO`, as the stores they make to the video memory.

  2. **Specification** — `CopiesRegion`: after `copyRegion` every pixel of the region is as `put`
     would store it, and the others are as before.

  3. **Correctness** — every store of `BGR_copyRegion` is of the byte that belongs there.
     `RGBO_copyRegion` counts its bytes as if they were pixels, so it does not get to the last pixel
     of a line (`copiesRegion_iff`).
-/
import TedkOS.Klibs.Lib
import TedkOS.Ui.Container

namespace TedkOS.Ui

open Klibs

/-! ## Program -/

/-- A byte for the video memory, and where. -/
abbrev Store := Nat × BitVec 8

/-- `ScreenWidth * ScreenHeight`. -/
def numPixels : Nat := ScreenWidth.toNat * ScreenHeight.toNat

/-- The place of a pixel. -/
def pixelAt (x y : Nat) : Nat := x + y * ScreenWidth.toNat

/-- `vmem[pixel * bytes + 0] = blue`, and green and red behind it. -/
def putAt (bytes pixel : Nat) (red green blue : BitVec 8) : List Store :=
  [(pixel * bytes + 0, blue), (pixel * bytes + 1, green), (pixel * bytes + 2, red)]

/-- The functions of a format: one pixel, -/
def BGR_put (pixel red green blue : BitVec 8) : List Store := putAt 3 pixel.toNat red green blue

/-- the whole screen in one grey, -/
def BGR_cls (val : BitVec 8) : List Store := memset 0 val (numPixels * 3)

/-- The loop over pixels of `BGR_copy` and `BGR_copyRegion`. -/
def BGR_pixels (buildBuffer : Nat → BitVec 8) : Nat → Nat → Nat → List Store
  | 0, _, _ => []
  | left + 1, writer, reader =>
    [(writer + 2, buildBuffer reader), (writer + 1, buildBuffer (reader + 1)),
      (writer, buildBuffer (reader + 2))] ++
      BGR_pixels buildBuffer left (writer + 3) (reader + 3)

/-- the whole build buffer, -/
def BGR_copy (buildBuffer : Nat → BitVec 8) : List Store := BGR_pixels buildBuffer numPixels 0 0

/-- `for (int y = yfrom; y < yto; y++)`. -/
def forRange (yfrom yto : Nat) (body : Nat → List Store) : List Store :=
  (List.range' yfrom (yto - yfrom)).flatMap body

/-- and a part of it. -/
def BGR_copyRegion (buildBuffer : Nat → BitVec 8) (xfrom xto yfrom yto : Nat) : List Store :=
  forRange yfrom yto fun y =>
    BGR_pixels buildBuffer (xto - xfrom) (3 * pixelAt xfrom y) (3 * pixelAt xfrom y)

/-- With four bytes a pixel: one pixel, -/
def RGBO_put (pixel red green blue : BitVec 8) : List Store := putAt 4 pixel.toNat red green blue

/-- and the whole screen, the fourth byte of each pixel too. -/
def RGBO_cls (val : BitVec 8) : List Store := memset 0 val (numPixels * 4)

/-- `writer[x] = reader[x]`, for `x < n`. -/
def RGBO_bytes (buildBuffer : Nat → BitVec 8) (n writer reader : Nat) : List Store :=
  (List.range n).map fun x => (writer + x, buildBuffer (reader + x))

/-- `RGBO_copy`: of each line as many BYTES as it has pixels. -/
def RGBO_copy (buildBuffer : Nat → BitVec 8) : List Store :=
  forRange 0 ScreenHeight.toNat fun y =>
    RGBO_bytes buildBuffer ScreenWidth.toNat (4 * (y * ScreenWidth.toNat))
      (3 * (y * ScreenWidth.toNat))

/-- `RGBO_copyRegion`: the same, of the lines of the region. -/
def RGBO_copyRegion (buildBuffer : Nat → BitVec 8) (xfrom xto yfrom yto : Nat) : List Store :=
  forRange yfrom yto fun y =>
    RGBO_bytes buildBuffer (xto - xfrom) (4 * pixelAt xfrom y) (3 * pixelAt xfrom y)

/-- The functions of a format, as the driver calls them. -/
structure VBEMemHelp where
  put : BitVec 8 → BitVec 8 → BitVec 8 → BitVec 8 → List Store
  cls : BitVec 8 → List Store
  copy : (Nat → BitVec 8) → List Store
  copyRegion : (Nat → BitVec 8) → Nat → Nat → Nat → Nat → List Store

def HelpRGBO : VBEMemHelp := ⟨RGBO_put, RGBO_cls, RGBO_copy, RGBO_copyRegion⟩

def HelpBGR : VBEMemHelp := ⟨BGR_put, BGR_cls, BGR_copy, BGR_copyRegion⟩

/-! ## Specification -/

/-- The formats there are. -/
inductive PixelFormat where
  | BGR
  | RGBO
deriving DecidableEq

namespace PixelFormat

/-- The functions of each. -/
def help : PixelFormat → VBEMemHelp
  | BGR => HelpBGR
  | RGBO => HelpRGBO

/-- The bytes of a pixel. -/
def bytes : PixelFormat → Nat
  | BGR => 3
  | RGBO => 4

end PixelFormat

/-- A region of the screen, `[xfrom, xto)` and `[yfrom, yto)`. -/
structure Region where
  xfrom : Nat
  xto : Nat
  yfrom : Nat
  yto : Nat
  /-- It lies on the screen. -/
  xto_le : xto ≤ ScreenWidth.toNat
  yto_le : yto ≤ ScreenHeight.toNat

namespace Region

/-- A pixel of the region. -/
def Has (r : Region) (x y : Nat) : Prop := (r.xfrom ≤ x ∧ x < r.xto) ∧ r.yfrom ≤ y ∧ y < r.yto

/-- The whole screen. -/
def screen : Region := ⟨0, ScreenWidth.toNat, 0, ScreenHeight.toNat, Nat.le_refl _, Nat.le_refl _⟩

end Region

/-- The stores of `copyRegion`. -/
def PixelFormat.copyRegion (format : PixelFormat) (buildBuffer : Nat → BitVec 8) (r : Region) :
    List Store :=
  format.help.copyRegion buildBuffer r.xfrom r.xto r.yfrom r.yto

/-- What the video memory has for a pixel is what `put` stores there for the colours of the build
    buffer. -/
def ShowsPixel (format : PixelFormat) (vmem buildBuffer : Nat → BitVec 8) (pixel : Nat) : Prop :=
  ∀ s ∈ putAt format.bytes pixel (buildBuffer (3 * pixel)) (buildBuffer
    (3 * pixel + 1)) (buildBuffer (3 * pixel + 2)), vmem s.1 = s.2

/-- The byte `i` of the video memory is one of a pixel of the region. -/
def Region.HasByte (r : Region) (format : PixelFormat) (i : Nat) : Prop :=
  ∃ x y, r.Has x y ∧ format.bytes * pixelAt x y ≤ i ∧ i < format.bytes * pixelAt x y + format.bytes

/-- What `copyRegion` is for, whatever the video memory has before. -/
structure CopiesRegion (format : PixelFormat) (buildBuffer : Nat → BitVec 8) (r : Region) :
    Prop where
  /-- The pixels of the region are as `put` would store them, -/
  shows : ∀ vmem x y, r.Has x y →
    ShowsPixel format (contents vmem (format.copyRegion buildBuffer r)) buildBuffer (pixelAt x y)
  /-- the other bytes as before, -/
  outside : ∀ vmem i, ¬ r.HasByte format i →
    contents vmem (format.copyRegion buildBuffer r) i = vmem i
  /-- and the whole screen is a region like another. -/
  whole : ∀ vmem, contents vmem (format.copyRegion buildBuffer Region.screen) =
    contents vmem (format.help.copy buildBuffer)

/-! ## What memory has after some stores

  A byte is what the last store to it has put there.  Where all stores to a byte agree, the order
  does not matter. -/

section Stores

variable {mem f : Nat → BitVec 8} {stores : List Store} {i : Nat}

/-- A byte without a store is as before. -/
theorem contents_of_not_mem (h : ∀ s ∈ stores, s.1 ≠ i) : contents mem stores i = mem i := by
  induction stores generalizing mem with
  | nil => rfl
  | cons s stores ih =>
    have hne := h s List.mem_cons_self
    rw [contents, ih fun s hs => h s (List.mem_cons_of_mem _ hs), if_neg (Ne.symm hne)]

/-- If every store is of the byte that belongs to its place, so is what it leaves. -/
theorem contents_of_mem (h : ∀ s ∈ stores, s.2 = f s.1) (hi : ∃ s ∈ stores, s.1 = i) :
    contents mem stores i = f i := by
  induction stores generalizing mem with
  | nil =>
    obtain ⟨s, hs, -⟩ := hi
    cases hs
  | cons s stores ih =>
    have hrest : ∀ s ∈ stores, s.2 = f s.1 := fun s hs => h s (List.mem_cons_of_mem _ hs)
    by_cases hlater : ∃ s ∈ stores, s.1 = i
    · exact ih hrest hlater
    · have hs : s.1 = i := by
        obtain ⟨s', hs', rfl⟩ := hi
        rcases List.mem_cons.mp hs' with rfl | hs'
        · rfl
        · exact absurd ⟨s', hs', rfl⟩ hlater
      rw [contents, contents_of_not_mem fun s' hs' heq => hlater ⟨s', hs', heq⟩, if_pos hs.symm,
        h s List.mem_cons_self, hs]

/-- Stores of the bytes that belong to their places leave the same, whatever their order. -/
theorem contents_congr {stores' : List Store} (h : ∀ s ∈ stores, s.2 = f s.1)
    (hiff : ∀ s, s ∈ stores' ↔ s ∈ stores) : contents mem stores' = contents mem stores := by
  funext i
  by_cases hi : ∃ s ∈ stores, s.1 = i
  · have hi' : ∃ s ∈ stores', s.1 = i := hi.imp fun s hs => ⟨(hiff s).mpr hs.1, hs.2⟩
    rw [contents_of_mem h hi, contents_of_mem (fun s hs => h s ((hiff s).mp hs)) hi']
  · rw [contents_of_not_mem fun s hs heq => hi ⟨s, hs, heq⟩,
      contents_of_not_mem fun s hs heq => hi ⟨s, (hiff s).mp hs, heq⟩]

/-- The stores of a loop are those of its rounds. -/
theorem mem_forRange {yfrom yto : Nat} {body : Nat → List Store} {s : Store} :
    s ∈ forRange yfrom yto body ↔ ∃ y, (yfrom ≤ y ∧ y < yto) ∧ s ∈ body y := by
  rw [forRange, List.mem_flatMap]
  refine exists_congr fun y => and_congr_left' ?_
  rw [List.mem_range'_1]
  omega

end Stores

section Correctness

variable {buildBuffer : Nat → BitVec 8} {r : Region} {s : Store}

/-- The pixels of a line follow each other. -/
theorem pixelAt_add {x i y : Nat} : pixelAt (x + i) y = pixelAt x y + i := by
  rw [pixelAt, pixelAt]
  omega

/-- Every pixel of the screen has a column and a line. -/
theorem exists_pixelAt {pixel : Nat} :
    pixel < numPixels ↔ ∃ x y, Region.screen.Has x y ∧ pixelAt x y = pixel := by
  have hwidth : ScreenWidth.toNat = 1024 := rfl
  have hheight : ScreenHeight.toNat = 768 := rfl
  simp only [numPixels, pixelAt, Region.Has, Region.screen, hwidth, hheight]
  constructor
  · intro h
    exact ⟨pixel % 1024, pixel / 1024, by omega, by omega⟩
  · rintro ⟨x, y, hhas, rfl⟩
    omega

/-! ## BGR

  Pixel `n` is in bytes `3n` to `3n + 2` of both buffers, so that copying bytes is copying
  pixels, a line of the region at a time. -/

/-- What `put` stores for a pixel of the build buffer. -/
def putPixel (buildBuffer : Nat → BitVec 8) (bytes pixel : Nat) : List Store :=
  putAt bytes pixel (buildBuffer (3 * pixel)) (buildBuffer (3 * pixel + 1))
    (buildBuffer (3 * pixel + 2))

/-- The byte that belongs to a place of the video memory. -/
def bgrByte (buildBuffer : Nat → BitVec 8) (i : Nat) : BitVec 8 :=
  buildBuffer (3 * (i / 3) + (2 - i % 3))

/-- Every store of a pixel in BGR is the byte of its place. -/
theorem bgrByte_putPixel {pixel : Nat} (hs : s ∈ putPixel buildBuffer 3 pixel) :
    s.2 = bgrByte buildBuffer s.1 := by
  simp only [putPixel, putAt, List.mem_cons, List.not_mem_nil, or_false] at hs
  rcases hs with rfl | rfl | rfl
  · exact congrArg buildBuffer (by omega)
  · exact congrArg buildBuffer (by omega)
  · exact congrArg buildBuffer (by omega)

/-- The loop over pixels stores what `put` would. -/
theorem mem_BGR_pixels {left pixel : Nat} :
    s ∈ BGR_pixels buildBuffer left (3 * pixel) (3 * pixel) ↔ ∃ i < left,
    s ∈ putPixel buildBuffer 3 (pixel + i) := by
  induction left generalizing pixel with
  | zero =>
    refine iff_of_false List.not_mem_nil ?_
    rintro ⟨i, hi, -⟩
    exact absurd hi (Nat.not_lt_zero i)
  | succ left ih =>
    have hfirst :
        s ∈ [(3 * pixel + 2, buildBuffer (3 * pixel)), (3 * pixel + 1, buildBuffer (3 * pixel + 1)),
        (3 * pixel, buildBuffer (3 * pixel + 2))] ↔ s ∈ putPixel buildBuffer 3 pixel := by
      simp only [putPixel, putAt, List.mem_cons, List.not_mem_nil, or_false, Nat.mul_comm pixel 3,
        Nat.add_zero]
      tauto
    rw [BGR_pixels, List.mem_append, hfirst, show 3 * pixel + 3 = 3 * (pixel + 1) by omega, ih]
    constructor
    · rintro (hs | ⟨i, hi, hs⟩)
      · exact ⟨0, Nat.succ_pos left, hs⟩
      · exact ⟨i + 1, Nat.succ_lt_succ hi, by rwa [show pixel + (i + 1) = pixel + 1 + i by omega]⟩
    · rintro ⟨i, hi, hs⟩
      cases i with
      | zero => exact Or.inl hs
      | succ i =>
        have hnext : pixel + 1 + i = pixel + (i + 1) := by omega
        exact Or.inr ⟨i, Nat.lt_of_succ_lt_succ hi, by rwa [hnext]⟩

/-- The stores of a region in BGR are those of its pixels, -/
theorem mem_BGR_copyRegion : s ∈ PixelFormat.BGR.copyRegion buildBuffer r ↔
    ∃ x y, r.Has x y ∧ s ∈ putPixel buildBuffer 3 (pixelAt x y) := by
  show s ∈ BGR_copyRegion buildBuffer r.xfrom r.xto r.yfrom r.yto ↔ _
  simp only [BGR_copyRegion, mem_forRange, mem_BGR_pixels, ← pixelAt_add]
  constructor
  · rintro ⟨y, hy, i, hi, hs⟩
    exact ⟨r.xfrom + i, y, ⟨by omega, hy⟩, hs⟩
  · rintro ⟨x, y, ⟨hx, hy⟩, hs⟩
    exact ⟨y, hy, x - r.xfrom, by omega, by rwa [show r.xfrom + (x - r.xfrom) = x by omega]⟩

/-- and those of a copy are those of the screen; -/
theorem mem_BGR_copy :
    s ∈ BGR_copy buildBuffer ↔ s ∈ PixelFormat.BGR.copyRegion buildBuffer Region.screen := by
  rw [mem_BGR_copyRegion]
  have hloop := @mem_BGR_pixels buildBuffer s numPixels 0
  rw [Nat.mul_zero] at hloop
  rw [BGR_copy, hloop]
  constructor
  · rintro ⟨i, hi, hs⟩
    obtain ⟨x, y, hhas, rfl⟩ := exists_pixelAt.mp hi
    rw [Nat.zero_add] at hs
    exact ⟨x, y, hhas, hs⟩
  · rintro ⟨x, y, hhas, hs⟩
    exact ⟨pixelAt x y, exists_pixelAt.mpr ⟨x, y, hhas, rfl⟩, by rwa [Nat.zero_add]⟩

/-- so each is the byte of its place, whatever the order. -/
theorem BGR_copyRegion_bytes : ∀ s ∈ PixelFormat.BGR.copyRegion buildBuffer r,
    s.2 = bgrByte buildBuffer s.1 := by
  intro s hs
  obtain ⟨x, y, -, hs⟩ := mem_BGR_copyRegion.mp hs
  exact bgrByte_putPixel hs

/-- **BGR** is copied right, whatever the region. -/
theorem copiesRegion_BGR : CopiesRegion .BGR buildBuffer r where
  shows vmem x y hhas s hs := by
    rw [contents_of_mem BGR_copyRegion_bytes ⟨s, mem_BGR_copyRegion.mpr ⟨x, y, hhas, hs⟩, rfl⟩]
    exact (bgrByte_putPixel hs).symm
  outside vmem i hi := by
    refine contents_of_not_mem fun s hs heq => hi ?_
    obtain ⟨x, y, hhas, hs⟩ := mem_BGR_copyRegion.mp hs
    refine ⟨x, y, hhas, ?_⟩
    show 3 * pixelAt x y ≤ i ∧ i < 3 * pixelAt x y + 3
    simp only [putPixel, putAt, List.mem_cons, List.not_mem_nil, or_false] at hs
    rcases hs with rfl | rfl | rfl
    · omega
    · omega
    · omega
  whole vmem := (contents_congr BGR_copyRegion_bytes fun _ => mem_BGR_copy).symm

/-! ## RGBO

  The video memory has four bytes a pixel, and `RGBO_copyRegion` counts as many bytes as there
  are pixels.  So it ends before the last pixel of a line (`RGBO_last`), and is right only for a
  region that has none. -/

/-- The stores of a region in RGBO: as many bytes a line as there are pixels. -/
theorem mem_RGBO_copyRegion : s ∈ PixelFormat.RGBO.copyRegion buildBuffer r ↔
    ∃ y, (r.yfrom ≤ y ∧ y < r.yto) ∧ ∃ x < r.xto - r.xfrom,
    (4 * pixelAt r.xfrom y + x, buildBuffer (3 * pixelAt r.xfrom y + x)) = s := by
  show s ∈ RGBO_copyRegion buildBuffer r.xfrom r.xto r.yfrom r.yto ↔ _
  simp only [RGBO_copyRegion, mem_forRange, RGBO_bytes, List.mem_map, List.mem_range]

/-- A copy is that of the screen. -/
theorem RGBO_copy_eq :
    RGBO_copy buildBuffer = PixelFormat.RGBO.copyRegion buildBuffer Region.screen := by
  simp only [RGBO_copy, PixelFormat.copyRegion, PixelFormat.help, HelpRGBO, RGBO_copyRegion,
    Region.screen, pixelAt, Nat.zero_add, Nat.sub_zero]

/-- The last byte of the last pixel of a line is not stored to. -/
theorem RGBO_last {y : Nat} (hx : r.xfrom < r.xto) :
    ∀ s ∈ PixelFormat.RGBO.copyRegion buildBuffer r, s.1 ≠ pixelAt (r.xto - 1) y * 4 + 2 := by
  intro s hs heq
  obtain ⟨y', -, x, hlt, rfl⟩ := mem_RGBO_copyRegion.mp hs
  have hwidth : ScreenWidth.toNat = 1024 := rfl
  have hxto := r.xto_le
  simp only [pixelAt, hwidth] at heq hxto
  omega

/-- **A region is copied right** if the format is BGR, or if the region is empty, and else not. -/
theorem copiesRegion_iff (format : PixelFormat) (buildBuffer : Nat → BitVec 8) (r : Region) :
    CopiesRegion format buildBuffer r ↔ format = .BGR ∨ r.xto ≤ r.xfrom ∨ r.yto ≤ r.yfrom := by
  cases format with
  | BGR => exact iff_of_true copiesRegion_BGR (Or.inl rfl)
  | RGBO =>
    constructor
    · intro h
      rcases Nat.lt_or_ge r.xfrom r.xto with hx | hx
      · rcases Nat.lt_or_ge r.yfrom r.yto with hy | hy
        · -- a video memory that has something else for the red of the last pixel of the first line
          have hshows : contents (fun _ => buildBuffer (3 * pixelAt (r.xto - 1) r.yfrom) + 1)
              (PixelFormat.RGBO.copyRegion buildBuffer r) (pixelAt (r.xto - 1) r.yfrom * 4 + 2) =
                buildBuffer (3 * pixelAt (r.xto - 1) r.yfrom) :=
            h.shows _ (r.xto - 1) r.yfrom ⟨by omega, by omega⟩ (_, _)
              (List.mem_cons_of_mem _ (List.mem_cons_of_mem _ List.mem_cons_self))
          rw [contents_of_not_mem (RGBO_last hx)] at hshows
          have hone : (1 : BitVec 8) = 0 := BitVec.add_right_eq_self.mp hshows
          cases hone
        · exact Or.inr (Or.inr hy)
      · exact Or.inr (Or.inl hx)
    · rintro (hformat | hempty)
      · cases hformat
      · constructor
        case shows =>
          intro vmem x y hhas
          obtain ⟨hx, hy⟩ := hhas
          omega
        case outside =>
          intro vmem i hi
          refine contents_of_not_mem fun s hs => ?_
          obtain ⟨y, hy, x, hx, -⟩ := mem_RGBO_copyRegion.mp hs
          omega
        case whole =>
          intro vmem
          simp only [← RGBO_copy_eq, PixelFormat.help, HelpRGBO]

/-- The whole screen in BGR. -/
theorem copiesRegion_iff_BGR : CopiesRegion .BGR (fun i => BitVec.ofNat 8 i) Region.screen :=
  (copiesRegion_iff .BGR _ _).mpr (Or.inl rfl)

/-- One pixel of RGBO: only its first byte is stored to. -/
theorem copiesRegion_not_RGBO :
    ¬ ∀ (format : PixelFormat) (buildBuffer : Nat → BitVec 8) (r : Region),
    CopiesRegion format buildBuffer r := by
  intro hall
  have hshows := (hall .RGBO (fun _ => 1) ⟨0, 1, 0, 1, by decide, by decide⟩).shows (fun _ => 0) 0 0
    ⟨by decide, by decide⟩ (2, 1) (by decide)
  have hred : contents (fun _ => 0)
      (PixelFormat.RGBO.copyRegion (fun _ => 1) ⟨0, 1, 0, 1, by decide, by decide⟩) 2 =
      (0 : BitVec 8) := rfl
  rw [hred] at hshows
  cases hshows

end Correctness

end TedkOS.Ui
