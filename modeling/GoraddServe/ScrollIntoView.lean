import Mathlib.Algebra.Order.AbsoluteValue.Basic
import Mathlib.Data.Rat.Defs
import Mathlib.Algebra.Order.Ring.Rat
import Mathlib.Tactic.Linarith

/-!
# Scrolling an item into view

`_newScrollTop` moves the top of the view to the nearest place from which an item is shown, or
shows its top when the item is taller than the view. Positions are counted from the top of the
content.
-/
namespace GoraddServe.ScrollIntoView

section Clamp

variable {T : Type*} [LinearOrder T] {a b x : T}

/-- The point from `a` to `b` that is nearest to `x`. -/
def clamp (a b x : T) : T := max a (min x b)

theorem le_clamp : a ≤ clamp a b x := le_max_left _ _

theorem clamp_le (h : a ≤ b) : clamp a b x ≤ b := max_le h (min_le_right _ _)

theorem clamp_of_mem (ha : a ≤ x) (hb : x ≤ b) : clamp a b x = x := by
  rw [clamp, min_eq_left hb, max_eq_right ha]

theorem clamp_of_lt (h : a ≤ b) (hx : x < a) : clamp a b x = a := by
  rw [clamp, min_eq_left (hx.le.trans h), max_eq_left hx.le]

theorem clamp_of_gt (h : a ≤ b) (hx : b < x) : clamp a b x = b := by
  rw [clamp, min_eq_right hx.le, max_eq_right h]

theorem abs_clamp_sub_le {T : Type*} [AddCommGroup T] [LinearOrder T] [IsOrderedAddMonoid T]
    {a b x p : T} (h : a ≤ b) (ha : x < a → a ≤ p) (hb : b < x → p ≤ b) :
    |clamp a b x - x| ≤ |p - x| := by
  rcases lt_or_ge x a with hx | hx
  · rw [clamp_of_lt h hx, abs_of_nonneg (sub_nonneg.mpr hx.le),
      abs_of_nonneg (sub_nonneg.mpr (hx.le.trans (ha hx)))]
    exact sub_le_sub_right (ha hx) x
  · rcases le_or_gt x b with hx' | hx'
    · rw [clamp_of_mem hx hx', sub_self, abs_zero]
      exact abs_nonneg _
    · rw [clamp_of_gt h hx', abs_sub_comm b, abs_sub_comm p, abs_of_nonneg (sub_nonneg.mpr hx'.le),
        abs_of_nonneg (sub_nonneg.mpr ((hb hx').trans hx'.le))]
      exact sub_le_sub_left (hb hx') x

end Clamp

def newScrollTop (viewTop viewBottom scrollHeight itemTop itemBottom : ℚ) : ℚ :=
  let viewHeight := viewBottom - viewTop
  let topPos :=
    if itemTop + viewHeight > scrollHeight then
      let topPos := scrollHeight - viewHeight
      if topPos < 0 then 0 else topPos
    else itemTop
  let bottomPos := itemBottom - viewHeight
  let bottomPos := if bottomPos < 0 then 0 else bottomPos
  if bottomPos > topPos then
    if topPos ≤ viewTop ∧ viewTop ≤ bottomPos then viewTop else topPos
  else if bottomPos ≤ viewTop ∧ viewTop ≤ topPos then viewTop
  else if itemTop < viewTop then topPos
  else bottomPos

/-- A view of some content with an item in it. The view is scrolled no further than to the end
of the content. -/
structure Layout where
  viewTop : ℚ
  viewBottom : ℚ
  scrollHeight : ℚ
  itemTop : ℚ
  itemBottom : ℚ
  view_le : viewTop ≤ viewBottom
  item_nonneg : 0 ≤ itemTop
  item_le : itemTop ≤ itemBottom
  item_le_scrollHeight : itemBottom ≤ scrollHeight
  viewTop_nonneg : 0 ≤ viewTop
  viewTop_le : viewTop ≤ max (scrollHeight - (viewBottom - viewTop)) 0

namespace Layout

variable (l : Layout)

def viewHeight : ℚ := l.viewBottom - l.viewTop

/-- The last position that the view can be scrolled to. -/
def maxTop : ℚ := max (l.scrollHeight - l.viewHeight) 0

def newTop : ℚ := newScrollTop l.viewTop l.viewBottom l.scrollHeight l.itemTop l.itemBottom

/-- The item lies fully in the view from this position on. -/
def Shows (top : ℚ) : Prop := top ≤ l.itemTop ∧ l.itemBottom ≤ top + l.viewHeight

theorem viewHeight_nonneg : 0 ≤ l.viewHeight := sub_nonneg.mpr l.view_le

/-- The highest and the lowest position of a view that shows the item. -/
def topPos : ℚ := min l.itemTop l.maxTop

def bottomPos : ℚ := max (l.itemBottom - l.viewHeight) 0

theorem topPos_eq : (if l.itemTop + l.viewHeight > l.scrollHeight then
      if l.scrollHeight - l.viewHeight < 0 then 0 else l.scrollHeight - l.viewHeight
    else l.itemTop) = l.topPos := by
  have hitem := l.item_nonneg
  rw [← max_def_lt, ← maxTop]
  split_ifs with h
  · exact (min_eq_right (max_le (by linarith) hitem)).symm
  · exact (min_eq_left (le_max_of_le_left (by linarith))).symm

theorem bottomPos_eq : (if l.itemBottom - l.viewHeight < 0 then 0
    else l.itemBottom - l.viewHeight) = l.bottomPos := by
  rw [bottomPos, max_def_lt]

theorem newTop_eq : l.newTop =
    if l.topPos < l.bottomPos then
      if l.topPos ≤ l.viewTop ∧ l.viewTop ≤ l.bottomPos then l.viewTop else l.topPos
    else clamp l.bottomPos l.topPos l.viewTop := by
  have hview : l.viewTop ≤ l.maxTop := l.viewTop_le
  simp only [newTop, newScrollTop]
  rw [← viewHeight, l.topPos_eq, l.bottomPos_eq]
  refine if_ctx_congr Iff.rfl (fun _ => rfl) fun hle => ?_
  rw [not_lt] at hle
  split_ifs with hmem hlt
  · exact (clamp_of_mem hmem.1 hmem.2).symm
  · exact (clamp_of_gt hle ((min_le_left _ _).trans_lt hlt)).symm
  · have htop : l.viewTop ≤ l.topPos := le_min (not_lt.mp hlt) hview
    exact (clamp_of_lt hle (not_le.mp fun hbottom => hmem ⟨hbottom, htop⟩)).symm

theorem bottomPos_le (h : l.itemBottom - l.itemTop ≤ l.viewHeight) : l.bottomPos ≤ l.topPos := by
  have hitem := l.item_nonneg
  have hcontent := l.item_le_scrollHeight
  refine max_le (le_min (by linarith) (le_max_of_le_left (by linarith))) ?_
  exact le_min hitem (le_max_right _ _)

theorem newTop_of_fits (h : l.itemBottom - l.itemTop ≤ l.viewHeight) :
    l.newTop = clamp l.bottomPos l.topPos l.viewTop := by
  rw [newTop_eq, if_neg (not_lt.mpr (l.bottomPos_le h))]

theorem newTop_of_taller (h : l.viewHeight < l.itemBottom - l.itemTop) :
    l.newTop = if l.itemTop ≤ l.viewTop ∧ l.viewBottom ≤ l.itemBottom then l.viewTop
      else l.itemTop := by
  have hitem := l.item_nonneg
  have hcontent := l.item_le_scrollHeight
  have htop : l.topPos = l.itemTop := min_eq_left (le_max_of_le_left (by linarith))
  have hbottom : l.bottomPos = l.itemBottom - l.viewHeight := max_eq_left (by linarith)
  have hinside : l.viewTop ≤ l.itemBottom - l.viewHeight ↔ l.viewBottom ≤ l.itemBottom := by
    rw [viewHeight]
    constructor <;> intro hle <;> linarith
  rw [newTop_eq, htop, hbottom, if_pos (by linarith)]
  exact if_congr (and_congr_right fun _ => hinside) rfl rfl

theorem shows_iff {top : ℚ} :
    l.Shows top ↔ l.itemBottom - l.viewHeight ≤ top ∧ top ≤ l.itemTop := by
  rw [Shows, and_comm, sub_le_iff_le_add]

theorem newTop_mem : 0 ≤ l.newTop ∧ l.newTop ≤ l.maxTop := by
  by_cases h : l.itemBottom - l.itemTop ≤ l.viewHeight
  · rw [l.newTop_of_fits h]
    exact ⟨(le_max_right _ _).trans le_clamp,
      (clamp_le (l.bottomPos_le h)).trans (min_le_right _ _)⟩
  · have hcontent := l.item_le_scrollHeight
    have htaller := not_le.mp h
    rw [l.newTop_of_taller htaller]
    split_ifs
    · exact ⟨l.viewTop_nonneg, l.viewTop_le⟩
    · exact ⟨l.item_nonneg, le_max_of_le_left (by linarith)⟩

def scrolled : Layout where
  viewTop := l.newTop
  viewBottom := l.newTop + l.viewHeight
  scrollHeight := l.scrollHeight
  itemTop := l.itemTop
  itemBottom := l.itemBottom
  view_le := by linarith [l.viewHeight_nonneg]
  item_nonneg := l.item_nonneg
  item_le := l.item_le
  item_le_scrollHeight := l.item_le_scrollHeight
  viewTop_nonneg := l.newTop_mem.1
  viewTop_le := by simpa [maxTop] using l.newTop_mem.2

theorem viewHeight_scrolled : l.scrolled.viewHeight = l.viewHeight :=
  add_sub_cancel_left _ _

theorem newTop_scrolled : l.scrolled.newTop = l.newTop := by
  by_cases h : l.itemBottom - l.itemTop ≤ l.viewHeight
  · have hle := l.bottomPos_le h
    have hbottom : l.scrolled.bottomPos = l.bottomPos := by
      rw [bottomPos, viewHeight_scrolled, bottomPos, scrolled]
    have htop : l.scrolled.topPos = l.topPos := by
      rw [topPos, maxTop, viewHeight_scrolled, topPos, maxTop, scrolled]
    rw [l.scrolled.newTop_of_fits (l.viewHeight_scrolled ▸ h), hbottom, htop]
    refine clamp_of_mem ?_ ?_
    · exact le_clamp.trans (l.newTop_of_fits h).ge
    · exact (l.newTop_of_fits h).le.trans (clamp_le hle)
  · have htaller := not_le.mp h
    have hinside : l.itemTop ≤ l.newTop ∧ l.newTop + l.viewHeight ≤ l.itemBottom := by
      rw [l.newTop_of_taller htaller]
      split_ifs with hview
      · exact ⟨hview.1, by rw [viewHeight]; linarith [hview.2]⟩
      · exact ⟨le_rfl, by linarith⟩
    rw [l.scrolled.newTop_of_taller (l.viewHeight_scrolled ▸ htaller)]
    exact if_pos hinside

/-- Scrolling shows the item with the least movement, and stays in the content. An item that is
taller than the view is shown from its top, unless nothing else is in view. Scrolling again
changes nothing. -/
theorem newTop_least :
    (0 ≤ l.newTop ∧ l.newTop ≤ l.maxTop) ∧
    (l.itemBottom - l.itemTop ≤ l.viewHeight →
      l.Shows l.newTop ∧ ∀ top, l.Shows top → |l.newTop - l.viewTop| ≤ |top - l.viewTop|) ∧
    (l.viewHeight < l.itemBottom - l.itemTop → l.newTop =
      if l.itemTop ≤ l.viewTop ∧ l.viewBottom ≤ l.itemBottom then l.viewTop else l.itemTop) ∧
    newScrollTop l.newTop (l.newTop + l.viewHeight) l.scrollHeight l.itemTop l.itemBottom =
      l.newTop := by
  refine ⟨l.newTop_mem, fun h => ?_, l.newTop_of_taller, l.newTop_scrolled⟩
  have hle := l.bottomPos_le h
  rw [l.newTop_of_fits h]
  constructor
  · refine l.shows_iff.mpr ⟨(le_max_left _ _).trans le_clamp, ?_⟩
    exact (clamp_le hle).trans (min_le_left _ _)
  · intro top hshows
    obtain ⟨hlow, hhigh⟩ := l.shows_iff.mp hshows
    have hview := l.viewTop_nonneg
    have hview' : l.viewTop ≤ l.maxTop := l.viewTop_le
    -- a position outside the content is on the other side of it, so it is no nearer
    refine abs_clamp_sub_le hle (fun hlt => ?_) (fun hlt => ?_)
    · obtain hlt | hlt := lt_max_iff.mp hlt
      · exact max_le hlow (hview.trans (hlt.le.trans hlow))
      · exact absurd hlt (not_lt.mpr hview)
    · obtain hlt | hlt := min_lt_iff.mp hlt
      · exact le_min hhigh (hhigh.trans (hlt.le.trans hview'))
      · exact absurd hlt (not_lt.mpr hview')

end Layout

def below : Layout where
  viewTop := 0
  viewBottom := 10
  scrollHeight := 100
  itemTop := 50
  itemBottom := 51
  view_le := by norm_num
  item_nonneg := by norm_num
  item_le := by norm_num
  item_le_scrollHeight := by norm_num
  viewTop_nonneg := by norm_num
  viewTop_le := by norm_num

theorem newTop_least_below : below.Shows below.newTop ∧ below.newTop = 41 :=
  ⟨((Layout.newTop_least below).2.1 (by norm_num [below, Layout.viewHeight])).1,
    by norm_num [below, Layout.newTop, newScrollTop]⟩

end GoraddServe.ScrollIntoView
