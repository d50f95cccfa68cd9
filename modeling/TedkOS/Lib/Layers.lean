/-
  Painting layers over each other.

  A layer changes the colour of a point as `cover` says, which depends on the point and on the
  colour that it has.  `paint` puts layers on, the first one lowest.

  1. **One point** — a layer that does not change the point may be left out (`paint_filter`), and
     below one that hides everything it does not matter what there was (`paint_of_hides`).

  2. **A canvas** — a state in which every point has a colour.  Going through points and changing
     one at a time changes each of them once (`changes_points`), and going through them again and
     again, a layer each time, paints the layers on each of them (`changes_layers`).

  Arbitrary layers, points and colours; nothing here names a program.
-/
import Mathlib.Data.List.Nodup

namespace Layers

variable {Layer Point Colour Canvas : Type}

/-! ## One point -/

section Point

variable (cover : Layer → Point → Colour → Colour)

/-- The colour of a point after the layers. -/
def paint (layers : List Layer) (p : Point) (c : Colour) : Colour :=
  layers.foldl (fun c l => cover l p c) c

/-- Nothing that is below the layer shows. -/
def Hides (l : Layer) (p : Point) : Prop := ∀ c c', cover l p c = cover l p c'

end Point

section Point

variable {cover : Layer → Point → Colour → Colour} {layers below above : List Layer} {l : Layer}
    {p : Point}

theorem paint_append {c : Colour} :
    paint cover (below ++ above) p c = paint cover above p (paint cover below p c) :=
  List.foldl_append

/-- **Layers that leave the point as it is** may be left out. -/
theorem paint_filter {keep : Layer → Bool} (h : ∀ l ∈ layers, keep l = false → ∀ c, cover l p c = c)
    (c : Colour) :
    paint cover (layers.filter keep) p c = paint cover layers p c := by
  induction layers generalizing c with
  | nil => rfl
  | cons l layers ih =>
    have hrest := ih fun l hl => h l (List.mem_cons_of_mem _ hl)
    rw [List.filter_cons]
    split
    · exact hrest _
    · next hkeep =>
      rw [hrest]
      exact congrArg (paint cover layers p)
        (h l List.mem_cons_self (Bool.eq_false_iff.mpr hkeep) c).symm

theorem paint_of_none (h : ∀ l ∈ layers, ∀ c, cover l p c = c) (c : Colour) :
    paint cover layers p c = c := by
  have hnone := @paint_filter _ _ _ cover layers p (fun _ => false) (fun l hl _ => h l hl) c
  rw [List.filter_false] at hnone
  exact hnone.symm

/-- **Below a layer that hides everything** there may have been anything. -/
theorem paint_of_hides (hl : l ∈ layers) (h : Hides cover l p) (c c' : Colour) :
    paint cover layers p c = paint cover layers p c' := by
  obtain ⟨below, above, rfl⟩ := List.append_of_mem hl
  rw [paint_append, paint_append]
  exact congrArg (paint cover above p) (h _ _)

end Point

/-! ## A canvas

  A canvas is anything of which the colours of points can be asked (`Changes`); it may be bytes.
  Going through the points of one layer changes them one by one, so after it each has been
  covered once, by the layer, and those that were not visited not at all. -/

section Canvas

variable (view : Canvas → Point → Colour) (Valid : Point → Prop)

/-- The points have changed by `f`, and the other valid ones have not. -/
def Changes (points : List Point) (f : Point → Colour → Colour) (s s' : Canvas) : Prop :=
  ∀ q, Valid q → (q ∈ points → view s' q = f q (view s q)) ∧ (q ∉ points → view s' q = view s q)

end Canvas

section Canvas

variable {view : Canvas → Point → Colour} {Valid : Point → Prop} {points : List Point}

/-- **Going through points** changes each of them once. -/
theorem changes_points {draw : Canvas → Point → Canvas} {f : Point → Colour → Colour}
    (hdraw : ∀ s p, Valid p → Changes view Valid [p] f s (draw s p)) (hnodup : points.Nodup)
    (hvalid : ∀ p ∈ points, Valid p) (s : Canvas) :
    Changes view Valid points f s (points.foldl draw s) := by
  induction points generalizing s with
  | nil => exact fun q _ => ⟨fun hq => absurd hq List.not_mem_nil, fun _ => rfl⟩
  | cons p points ih =>
    obtain ⟨hp, hnodup⟩ := List.nodup_cons.mp hnodup
    intro q hq
    obtain ⟨hin, hout⟩ :=
      ih hnodup (fun p hp => hvalid p (List.mem_cons_of_mem _ hp)) (draw s p) q hq
    obtain ⟨hp', hne⟩ := hdraw s p (hvalid p List.mem_cons_self) q hq
    rw [List.foldl_cons]
    constructor
    · intro hmem
      rcases List.mem_cons.mp hmem with rfl | hmem
      · rw [hout hp, hp' List.mem_cons_self]
      · rw [hin hmem, hne]
        rintro hqp
        rw [List.mem_singleton.mp hqp] at hmem
        exact hp hmem
    · intro hmem
      rw [List.mem_cons, not_or] at hmem
      rw [hout hmem.2, hne fun hqp => hmem.1 (List.mem_singleton.mp hqp)]

/-- **Layer after layer** on the same points. -/
theorem changes_layers {pass : Canvas → Layer → Canvas} {cover : Layer → Point → Colour → Colour}
    (hpass : ∀ s l, Changes view Valid points (cover l) s (pass s l)) (layers : List Layer)
    (s : Canvas) :
    Changes view Valid points (paint cover layers) s (layers.foldl pass s) := by
  induction layers generalizing s with
  | nil => exact fun q _ => ⟨fun _ => rfl, fun _ => rfl⟩
  | cons l layers ih =>
    intro q hq
    obtain ⟨hin, hout⟩ := ih (pass s l) q hq
    obtain ⟨hl, hl'⟩ := hpass s l q hq
    constructor
    · intro hmem
      rw [List.foldl_cons, hin hmem, hl hmem]
      rfl
    · intro hmem
      rw [List.foldl_cons, hout hmem, hl' hmem]

end Canvas

end Layers
