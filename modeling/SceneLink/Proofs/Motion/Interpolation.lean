import Mathlib.Data.List.Forall2
import SceneLink.Proofs.Double.Order
import SceneLink.Proofs.Motion.Turn

namespace SceneLink

-- Each curve stays far below the largest double, whatever the progress.
section Curves

open Double

theorem Ease.within_half : Within 0 half :=
  below_ofUnits Nat.two_pos (two_pow_le_maxUnits (by decide)) (by decide +kernel)

theorem Ease.within_apply (ease : Ease) {t : Double} (ht : t ≠ .nan) : Within 17 (ease.apply t) := by
  have h0 : Within 0 (t.clamp 0 1) := within_clamp ht
  have hone : Within 0 1 := within_ofInt (n := 1) (by decide) (by decide)
  have htwo : Within 1 2 := within_ofInt (n := 2) (by decide) (by decide)
  have hfour : Within 2 4 := within_ofInt (n := 4) (by decide) (by decide)
  unfold Ease.apply
  generalize t.clamp 0 1 = t at h0
  have hdouble : Within 2 (2 * t) := within_mul (by decide) htwo h0
  cases ease with
  | linear => exact h0.mono (by decide)
  | easeInQuad => exact within_mul (by decide) h0 h0
  | easeOutQuad =>
      have hleft : Within 3 (2 - t) := within_sub (by decide) htwo (h0.mono (by decide))
      exact within_mul (by decide) h0 hleft
  | easeInOutQuad =>
      dsimp only
      split
      · exact within_mul (by decide) hdouble h0
      · have hslope : Within 4 (4 - 2 * t) := within_sub (by decide) hfour hdouble
        have hrise : Within 5 ((4 - 2 * t) * t) := within_mul (by decide) hslope h0
        exact (within_add (by decide) ((within_neg hone).mono (by decide)) hrise).mono (by decide)
  | easeInCubic =>
      have hsquare : Within 1 (t * t) := within_mul (by decide) h0 h0
      exact within_mul (by decide) hsquare h0
  | easeOutCubic =>
      have hleft : Within 2 (t - 1) := within_sub (by decide) h0 hone
      have hsquare : Within 5 ((t - 1) * (t - 1)) := within_mul (by decide) hleft hleft
      have hcube : Within 8 ((t - 1) * (t - 1) * (t - 1)) := within_mul (by decide) hsquare hleft
      exact (within_add (by decide) hcube (hone.mono (by decide))).mono (by decide)
  | easeInOutCubic =>
      dsimp only
      split
      · have hsteep : Within 3 (4 * t) := within_mul (by decide) hfour h0
        have hsquare : Within 4 (4 * t * t) := within_mul (by decide) hsteep h0
        exact within_mul (by decide) hsquare h0
      · have hleft : Within 4 (2 * t - 2) := within_sub (by decide) hdouble (htwo.mono (by decide))
        have hslow : Within 5 (half * (2 * t - 2)) := within_mul (by decide) within_half hleft
        have hsquare : Within 10 (half * (2 * t - 2) * (2 * t - 2)) := within_mul (by decide) hslow hleft
        have hcube : Within 15 (half * (2 * t - 2) * (2 * t - 2) * (2 * t - 2)) :=
          within_mul (by decide) hsquare hleft
        exact within_add (by decide) hcube (hone.mono (by decide))

end Curves

namespace Json

-- The way from `a` to `b` is longer than the largest double, and nothing of it is covered.
def Lost (t : Double) (a b : Number) : Prop := (b.toDouble - a.toDouble).isFinite = false ∧ t.isZero = true

inductive Fills (t : Double) (a b : Number) : Json → Prop
  | number (n : Number) (h : ¬Lost t a b) : Fills t a b (.num n)
  | null (h : Lost t a b) : Fills t a b .null

inductive Matched : Json → Json → Prop
  | numbers (a b : Number) : Matched (.num a) (.num b)
  | arrays {as bs : List Number} (h : as.length = bs.length) : Matched (.arr (as.map .num)) (.arr (bs.map .num))

-- Data of the shape of both ends, with every entry filled.
inductive Spans (t : Double) : Json → Json → Json → Prop
  | number {a b : Number} {json : Json} (h : Fills t a b json) : Spans t (.num a) (.num b) json
  | array {as bs : List Number} {items : List Json} (hlength : as.length = bs.length)
      (h : List.Forall₂ (fun ends json => Fills t ends.1 ends.2 json) (as.zip bs) items) :
      Spans t (.arr (as.map .num)) (.arr (bs.map .num)) (.arr items)

variable {a b : Number} {as bs : List Number} {t : Double} {source target json : Json}

theorem fills_between (ht : t.isFinite = true) : Fills t a b (between a.toDouble b.toDouble t) := by
  obtain ⟨x, hx⟩ := Double.exists_of_isFinite a.isFinite_toDouble
  obtain ⟨y, hy⟩ := Double.exists_of_isFinite b.isFinite_toDouble
  obtain ⟨t, rfl⟩ := Double.exists_of_isFinite ht
  have hway : b.toDouble - a.toDouble ≠ .nan := by
    rw [hx, hy]
    exact Double.finite_sub_ne_nan y x
  have hlost : (b.toDouble - a.toDouble) * .finite t = .nan ↔ Lost (.finite t) a b :=
    Double.mul_finite_eq_nan_iff hway t
  unfold between
  by_cases h : Lost (.finite t) a b
  · rw [hlost.2 h, hx]
    exact .null h
  · have hnumber : a.toDouble + (b.toDouble - a.toDouble) * .finite t ≠ .nan := by
      rw [hx] at hlost ⊢
      exact Double.finite_add_ne_nan x fun hnan => h (hlost.1 hnan)
    obtain ⟨n, hn⟩ := exists_ofDouble hnumber
    rw [hn]
    exact .number n h

theorem Fills.eq_null (h : Fills t a b json) (hlost : Lost t a b) : json = .null := by
  cases h with
  | number n hkept => exact absurd hlost hkept
  | null _ => rfl

theorem Fills.exists_number (h : Fills t a b json) (hkept : ¬Lost t a b) : ∃ n, json = .num n := by
  cases h with
  | number n _ => exact ⟨n, rfl⟩
  | null hlost => exact absurd hlost hkept

theorem lerpItems?_map (h : as.length = bs.length) : lerpItems? t (as.map .num) (bs.map .num) =
    some ((as.zip bs).map fun ends => between ends.1.toDouble ends.2.toDouble t) := by
  induction as generalizing bs with
  | nil =>
      cases bs with
      | nil => rfl
      | cons b bs => cases h
  | cons a as ih =>
      cases bs with
      | nil => cases h
      | cons b bs =>
          simp only [List.map_cons, List.zip_cons_cons, lerpItems?]
          rw [ih (Nat.succ.inj h)]
          rfl

theorem matched_of_lerpItems? {source target items : List Json} (h : lerpItems? t source target = some items) :
    Matched (.arr source) (.arr target) := by
  induction source, target using lerpItems?.induct generalizing items with
  | case1 => exact @Matched.arrays [] [] rfl
  | case2 a as b bs ih =>
      obtain ⟨rest, hrest, -⟩ := Option.map_eq_some_iff.1 h
      have hmatched := ih hrest
      generalize hsource : Json.arr as = source at hmatched
      generalize htarget : Json.arr bs = target at hmatched
      cases hmatched with
      | numbers a b => cases hsource
      | @arrays ms ns hlength =>
          cases hsource
          cases htarget
          exact @Matched.arrays (a :: ms) (b :: ns) (congrArg Nat.succ hlength)
  | case3 source target hnil hcons =>
      rw [lerpItems?] at h
      · cases h
      · exact hnil
      · exact hcons

theorem matched_of_lerp? (h : lerp? source target t = some json) : Matched source target := by
  unfold lerp? at h
  split at h
  · exact .numbers _ _
  · obtain ⟨items, hitems, -⟩ := Option.map_eq_some_iff.1 h
    exact matched_of_lerpItems? hitems
  · cases h

theorem lerp_eq_ok : lerp source target t = .ok json ↔ lerp? source target t = some json := by
  unfold lerp
  cases lerp? source target t <;> simp

theorem lerp_spans (ht : t.isFinite = true) (h : Matched source target) :
    ∃ json, lerp source target t = .ok json ∧ Spans t source target json := by
  cases h with
  | numbers a b => exact ⟨_, rfl, .number (fills_between ht)⟩
  | @arrays as bs hlength =>
      refine ⟨_, lerp_eq_ok.2 (congrArg (Option.map arr) (lerpItems?_map hlength)), .array hlength ?_⟩
      rw [List.forall₂_map_right_iff]
      exact List.forall₂_same.2 fun ends _ => fills_between ht

theorem spans_of_lerp (ht : t.isFinite = true) (h : lerp source target t = .ok json) :
    Spans t source target json := by
  obtain ⟨found, hfound, hspans⟩ := lerp_spans ht (matched_of_lerp? (lerp_eq_ok.1 h))
  cases hfound.symm.trans h
  exact hspans

-- Nothing is lost where something of the way is covered.
theorem spans_target (ht : t.isZero = false) (h : Matched source target) : Spans t source target target := by
  have hfills (a b : Number) : Fills t a b (.num b) := .number b fun hlost => by
    rw [hlost.2] at ht
    cases ht
  cases h with
  | numbers a b => exact .number (hfills a b)
  | @arrays as bs hlength =>
      refine .array hlength ?_
      induction as generalizing bs with
      | nil =>
          cases bs with
          | nil => exact .nil
          | cons b bs => cases hlength
      | cons a as ih =>
          cases bs with
          | nil => cases hlength
          | cons b bs => exact .cons (hfills a b) (ih (Nat.succ.inj hlength))

end Json

namespace Tween

open Json (Matched Spans)

-- The share of the way that is covered in a step: all of it at the end, and before that what the
-- curve says.
def share (t : Tween) : Double := if Double.le 1 t.progress then 1 else t.ease.apply t.progress

variable {t : Tween} {source value : Json}

theorem spans_of_valueAt (h : t.valueAt source = .ok value) : Spans t.share source t.target value := by
  unfold valueAt at h
  unfold share
  split at h
  · next hend =>
    obtain ⟨reached, hreached, hvalue⟩ := ok_of_bind h
    cases hvalue
    rw [if_pos hend]
    exact Json.spans_target (by decide +kernel) (Json.matched_of_lerp? (Json.lerp_eq_ok.1 hreached))
  · next hrunning =>
    rw [if_neg hrunning]
    exact Json.spans_of_lerp (t.ease.within_apply t.progress_ne_nan).isFinite h

end Tween

namespace Json

-- Interpolation succeeds on two numbers and on two arrays of numbers of one length, and on nothing else, and it
-- keeps the shape. All entries are numbers, but where a way that is out of range has not been entered yet. So are
-- the values that tweens write, whatever the curve and the time.
theorem interpolation_keeps_shape (source target : Json) (t : Double) (ht : t.isFinite = true) :
    ((∃ json, lerp source target t = .ok json) ↔ Matched source target) ∧
    (∀ json, lerp source target t = .ok json → Spans t source target json) ∧
    ∀ turn : Tween.Turn, turn.run.1 = turn.world ∨ ∃ handle start value,
      turn.moved.start turn.world (.object handle) = .ok start ∧
      turn.run.1 = (turn.write handle value).world ∧
      Spans turn.moved.share start turn.tween.target value := by
  refine ⟨⟨?_, ?_⟩, fun json h => spans_of_lerp ht h, fun turn => ?_⟩
  · rintro ⟨json, h⟩
    exact matched_of_lerp? (lerp_eq_ok.1 h)
  · intro hmatched
    obtain ⟨json, hjson, -⟩ := lerp_spans ht hmatched
    exact ⟨json, hjson⟩
  · rcases turn.writes with hidle | ⟨handle, value, hdue, hrun⟩
    · exact .inl hidle
    · obtain ⟨start, hstart, hvalue⟩ := hdue.value
      exact .inr ⟨handle, start, value, hstart, hrun, Tween.spans_of_valueAt hvalue⟩

-- From the smallest double to the largest one.
section Swing

def lowest : Number := .float (Double.Finite.max true)

def highest : Number := .float (Double.Finite.max false)

theorem interpolation_keeps_shape_swing : Ease.half.isFinite = true ∧
    (∃ n, lerp (.num lowest) (.num highest) Ease.half = .ok (.num n)) ∧
    ∃ json, lerp (.arr [.num lowest, zero]) (.arr [.num highest, zero]) Ease.half = .ok json ∧
      Spans Ease.half (.arr [.num lowest, zero]) (.arr [.num highest, zero]) json := by
  have hfinite : Ease.half.isFinite = true := Ease.within_half.isFinite
  have hkept : ¬Lost Ease.half lowest highest := fun hlost => absurd hlost.2 (by decide +kernel)
  have hspans (source target : Json) (hmatched : Matched source target) :
      ∃ json, lerp source target Ease.half = .ok json ∧ Spans Ease.half source target json := by
    obtain ⟨hsucceeds, hspans, -⟩ := interpolation_keeps_shape source target Ease.half hfinite
    obtain ⟨json, hjson⟩ := hsucceeds.2 hmatched
    exact ⟨json, hjson, hspans json hjson⟩
  refine ⟨hfinite, ?_, hspans _ _ (@Matched.arrays [lowest, .int 0 _ _] [highest, .int 0 _ _] rfl)⟩
  obtain ⟨json, hjson, hshape⟩ := hspans _ _ (.numbers lowest highest)
  cases hshape with
  | number hfills =>
      obtain ⟨n, rfl⟩ := hfills.exists_number hkept
      exact ⟨n, hjson⟩

-- A swing that has not begun is at neither end.
theorem null_on_the_way : ∃ (source target : Json) (t : Double), Double.le 0 t = true ∧ Double.le t 1 = true ∧
    Matched source target ∧ lerp source target t = .ok .null := by
  have hlost : Lost 0 lowest highest := ⟨by decide +kernel, by decide +kernel⟩
  have hnull : between lowest.toDouble highest.toDouble 0 = .null :=
    (fills_between (by decide +kernel)).eq_null hlost
  refine ⟨.num lowest, .num highest, 0, by decide +kernel, by decide +kernel, .numbers _ _, ?_⟩
  exact congrArg Except.ok hnull

end Swing

end Json

end SceneLink
