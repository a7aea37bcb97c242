import Mathlib.Data.List.Nodup
import Mathlib.Data.List.Perm.Subperm

/-!
# Ordered forests

A forest is a list of trees, each with a label and the forest of its children. What is done to a
document tree is to insert a forest before a node, or after the last child of one, and to drop
nodes with all that is below them.
-/
namespace GoraddServe.Forests

inductive Forest (α : Type*) where
  | nil
  | node (a : α) (children rest : Forest α)
  deriving DecidableEq

namespace Forest

variable {α : Type*}

def append : Forest α → Forest α → Forest α
  | nil, g => g
  | node a children rest, g => node a children (rest.append g)

instance : Append (Forest α) := ⟨append⟩

def labels : Forest α → List α
  | nil => []
  | node a children rest => a :: (children.labels ++ rest.labels)

/-- The nodes that `p` takes are dropped, with everything below them. -/
def prune (p : α → Bool) : Forest α → Forest α
  | nil => nil
  | node a children rest =>
    if p a then rest.prune p else node a (children.prune p) (rest.prune p)

/-- What `prune` drops. -/
def cut (p : α → Bool) : Forest α → Forest α
  | nil => nil
  | node a children rest =>
    if p a then node a children (rest.cut p) else children.cut p ++ rest.cut p

/-- `g` is inserted before the outermost nodes that `p` takes. -/
def insertBefore (p : α → Bool) : Forest α → Forest α → Forest α
  | nil, _ => nil
  | node a children rest, g =>
    if p a then g ++ node a children (rest.insertBefore p g)
    else node a (children.insertBefore p g) (rest.insertBefore p g)

/-- `g` is inserted after the last child of the outermost nodes that `p` takes. -/
def appendChild (p : α → Bool) : Forest α → Forest α → Forest α
  | nil, _ => nil
  | node a children rest, g =>
    if p a then node a (children ++ g) (rest.appendChild p g)
    else node a (children.appendChild p g) (rest.appendChild p g)

/-- The labels above the first node that `p` takes, the outermost one first. -/
def ancestors (p : α → Bool) : Forest α → Option (List α)
  | nil => none
  | node a children rest =>
    if p a then some []
    else
      match children.ancestors p with
      | some above => some (a :: above)
      | none => rest.ancestors p

/-- The nodes that `covered` takes are dropped, and `g` comes in the place of the outermost one
that has, or is, a node that `p` takes. -/
def splice (covered p : α → Bool) : Forest α → Forest α → Forest α
  | nil, _ => nil
  | node a children rest, g =>
    if covered a then
      if (a :: children.labels).any p then g ++ rest.splice covered p g
      else rest.splice covered p g
    else node a (children.splice covered p g) (rest.splice covered p g)

section Lemmas

variable {p q covered : α → Bool} {f g h t : Forest α} {a : α}

@[simp] theorem nil_append (g : Forest α) : nil ++ g = g := rfl

@[simp] theorem node_append (a : α) (children rest g : Forest α) :
    node a children rest ++ g = node a children (rest ++ g) := rfl

@[simp] theorem append_nil (f : Forest α) : f ++ nil = f := by
  induction f with
  | nil => rfl
  | node a children rest _ ih => rw [node_append, ih]

theorem append_assoc (f g h : Forest α) : f ++ g ++ h = f ++ (g ++ h) := by
  induction f with
  | nil => rfl
  | node a children rest _ ih => rw [node_append, node_append, node_append, ih]

@[simp] theorem labels_nil : (nil : Forest α).labels = [] := rfl

@[simp] theorem labels_node (a : α) (children rest : Forest α) :
    (node a children rest).labels = a :: (children.labels ++ rest.labels) := rfl

@[simp] theorem labels_append (f g : Forest α) : (f ++ g).labels = f.labels ++ g.labels := by
  induction f with
  | nil => rfl
  | node a children rest _ ih => simp [ih]

section Node

variable {children rest : Forest α}

theorem prune_pos (ha : p a = true) : (node a children rest).prune p = rest.prune p := if_pos ha

theorem prune_neg (ha : p a = false) :
    (node a children rest).prune p = node a (children.prune p) (rest.prune p) := by
  rw [prune, ha, if_neg Bool.false_ne_true]

theorem cut_neg (ha : p a = false) :
    (node a children rest).cut p = children.cut p ++ rest.cut p := by
  rw [cut, ha, if_neg Bool.false_ne_true]

theorem insertBefore_pos (ha : p a = true) : (node a children rest).insertBefore p g =
    g ++ node a children (rest.insertBefore p g) := if_pos ha

theorem insertBefore_neg (ha : p a = false) : (node a children rest).insertBefore p g =
    node a (children.insertBefore p g) (rest.insertBefore p g) := by
  rw [insertBefore, ha, if_neg Bool.false_ne_true]

theorem splice_neg (ha : covered a = false) : (node a children rest).splice covered p g =
    node a (children.splice covered p g) (rest.splice covered p g) := by
  rw [splice, ha, if_neg Bool.false_ne_true]

theorem splice_or_neg (hq : q a = false) (hp : p a = false) :
    (node a children rest).splice (fun a => q a || p a) p g =
      node a (children.splice (fun a => q a || p a) p g)
        (rest.splice (fun a => q a || p a) p g) := splice_neg (by simp [hq, hp])

end Node

def Free (p : α → Bool) (t : Forest α) : Prop := ∀ a ∈ t.labels, p a = false

theorem free_node {children rest : Forest α} :
    Free p (node a children rest) ↔ p a = false ∧ Free p children ∧ Free p rest := by
  simp only [Free, labels_node, List.mem_cons, List.mem_append]
  constructor
  · intro h
    exact ⟨h a (.inl rfl), fun b hb => h b (.inr (.inl hb)), fun b hb => h b (.inr (.inr hb))⟩
  · rintro ⟨ha, hchildren, hrest⟩ b (rfl | hb | hb)
    · exact ha
    · exact hchildren b hb
    · exact hrest b hb

theorem not_free : ¬Free p t ↔ ∃ a ∈ t.labels, p a = true := by simp [Free]

theorem prune_free (h : Free p t) : t.prune p = t := by
  induction t with
  | nil => rfl
  | node a children rest ihc ihr =>
    obtain ⟨ha, hchildren, hrest⟩ := free_node.mp h
    rw [prune, ha, ihc hchildren, ihr hrest]
    rfl

theorem cut_free (h : Free p t) : t.cut p = nil := by
  induction t with
  | nil => rfl
  | node a children rest ihc ihr =>
    obtain ⟨ha, hchildren, hrest⟩ := free_node.mp h
    rw [cut, ha, ihc hchildren, ihr hrest]
    rfl

theorem insertBefore_free (h : Free p t) : t.insertBefore p g = t := by
  induction t with
  | nil => rfl
  | node a children rest ihc ihr =>
    obtain ⟨ha, hchildren, hrest⟩ := free_node.mp h
    rw [insertBefore, ha, ihc hchildren, ihr hrest]
    rfl

theorem ancestors_free (h : Free p t) : t.ancestors p = none := by
  induction t with
  | nil => rfl
  | node a children rest ihc ihr =>
    obtain ⟨ha, hchildren, hrest⟩ := free_node.mp h
    rw [ancestors, ha, ihc hchildren, ihr hrest]
    rfl

theorem any_eq_false (hfree : Free p t) (ha : p a = false) : (a :: t.labels).any p = false := by
  rw [List.any_cons, ha, Bool.false_or, List.any_eq_false]
  exact fun b hb => Bool.eq_false_iff.mp (hfree b hb)

theorem splice_free (h : Free p t) : t.splice covered p g = t.prune covered := by
  induction t with
  | nil => rfl
  | node a children rest ihc ihr =>
    obtain ⟨ha, hchildren, hrest⟩ := free_node.mp h
    rw [splice, prune, any_eq_false hchildren ha, ihc hchildren, ihr hrest]
    rfl

@[simp] theorem prune_append (f g : Forest α) : (f ++ g).prune p = f.prune p ++ g.prune p := by
  induction f with
  | nil => rfl
  | node a children rest _ ih =>
    rw [node_append, prune, prune]
    split
    · exact ih
    · rw [ih, node_append]

theorem prune_prune (p q : α → Bool) (t : Forest α) :
    (t.prune p).prune q = t.prune fun a => p a || q a := by
  induction t with
  | nil => rfl
  | node a children rest ihc ihr =>
    rw [prune, prune]
    by_cases hp : p a = true
    · simp [hp, ihr]
    · by_cases hq : q a = true
      · simp [hp, hq, prune, ihr]
      · simp [hp, hq, prune, ihc, ihr]

@[simp] theorem insertBefore_append (f h : Forest α) :
    (f ++ h).insertBefore p g = f.insertBefore p g ++ h.insertBefore p g := by
  induction f with
  | nil => rfl
  | node a children rest _ ih =>
    rw [node_append, insertBefore, insertBefore]
    split
    · rw [ih, append_assoc, node_append]
    · rw [ih, node_append]

theorem labels_prune_sublist (p : α → Bool) (t : Forest α) :
    (t.prune p).labels.Sublist t.labels := by
  induction t with
  | nil => exact List.Sublist.slnil
  | node a children rest ihc ihr =>
    rw [prune, labels_node]
    split
    · exact (ihr.trans (List.sublist_append_right _ _)).cons a
    · exact (ihc.append ihr).cons_cons a

theorem free_prune (h : Free q t) : Free q (t.prune p) :=
  fun a ha => h a ((labels_prune_sublist p t).subset ha)

theorem splice_congr {covered' : α → Bool} (h : ∀ a ∈ t.labels, covered a = covered' a) :
    t.splice covered p g = t.splice covered' p g := by
  induction t with
  | nil => rfl
  | node a children rest ihc ihr =>
    have hchildren := ihc fun b hb => h b (List.mem_cons_of_mem _ (List.mem_append_left _ hb))
    have hrest := ihr fun b hb => h b (List.mem_cons_of_mem _ (List.mem_append_right _ hb))
    rw [splice, splice, h a List.mem_cons_self, hchildren, hrest]

def Once (p : α → Bool) (t : Forest α) : Prop := t.labels.countP p = 1

theorem free_iff_countP : Free p t ↔ t.labels.countP p = 0 := by
  simp [Free, List.countP_eq_zero]

/-- The node that is taken is the first one, or below it, or after it. -/
theorem once_node {children rest : Forest α} (h : Once p (node a children rest)) :
    p a = true ∧ Free p children ∧ Free p rest ∨
      p a = false ∧ Once p children ∧ Free p rest ∨
        p a = false ∧ Free p children ∧ Once p rest := by
  simp only [Once, labels_node, List.countP_cons, List.countP_append] at h
  simp only [Once, free_iff_countP]
  cases hp : p a with
  | true =>
    rw [hp, if_pos rfl] at h
    exact .inl ⟨rfl, by omega, by omega⟩
  | false =>
    rw [hp, if_neg Bool.false_ne_true] at h
    right
    by_cases hchildren : children.labels.countP p = 1
    · exact .inl ⟨rfl, hchildren, by omega⟩
    · exact .inr ⟨rfl, by omega, by omega⟩

theorem Once.exists (h : Once p t) : ∃ a ∈ t.labels, p a = true :=
  List.countP_pos_iff.mp (by rw [show t.labels.countP p = 1 from h]; exact Nat.one_pos)

theorem Once.any (h : Once p t) : t.labels.any p = true :=
  List.any_eq_true.mpr h.exists

theorem Once.of_append {f : Forest α} (h : Once p (node a f t))
    (hmem : ∃ b ∈ t.labels, p b = true) : p a = false ∧ Free p f ∧ Once p t := by
  rcases once_node h with ⟨-, -, hfree⟩ | ⟨-, -, hfree⟩ | h
  · exact absurd hfree (not_free.mpr hmem)
  · exact absurd hfree (not_free.mpr hmem)
  · exact h

theorem Once.of_children {f : Forest α} (h : Once p (node a f t))
    (hmem : ∃ b ∈ f.labels, p b = true) : p a = false ∧ Once p f ∧ Free p t := by
  rcases once_node h with ⟨-, hfree, -⟩ | h | ⟨-, hfree, -⟩
  · exact absurd hfree (not_free.mpr hmem)
  · exact h
  · exact absurd hfree (not_free.mpr hmem)

theorem mem_of_ancestors {above : List α} (h : t.ancestors p = some above) (ha : a ∈ above) :
    a ∈ t.labels := by
  induction t generalizing above with
  | nil => cases h
  | node b children rest ihc ihr =>
    rw [ancestors] at h
    split at h
    · cases h
      exact absurd ha List.not_mem_nil
    · split at h
      · rename_i above' habove
        cases h
        rcases List.mem_cons.mp ha with rfl | ha
        · exact List.mem_cons_self
        · exact List.mem_cons_of_mem _ (List.mem_append_left _ (ihc habove ha))
      · exact List.mem_cons_of_mem _ (List.mem_append_right _ (ihr h ha))

theorem ancestors_once (h : Once p t) : ∃ above, t.ancestors p = some above := by
  induction t with
  | nil => exact absurd h Nat.zero_ne_one
  | node a children rest ihc ihr =>
    rcases once_node h with ⟨ha, -, -⟩ | ⟨ha, hchildren, -⟩ | ⟨ha, hfree, hrest⟩
    · exact ⟨[], by rw [ancestors, if_pos ha]⟩
    · obtain ⟨above, habove⟩ := ihc hchildren
      exact ⟨a :: above, by rw [ancestors, ha, habove]; rfl⟩
    · obtain ⟨above, habove⟩ := ihr hrest
      exact ⟨above, by rw [ancestors, ha, ancestors_free hfree, habove]; rfl⟩

theorem cut_once (h : Once p t) : ∃ a children, t.cut p = node a children nil ∧ p a = true ∧
    a ∈ t.labels ∧ Free p children := by
  induction t with
  | nil => exact absurd h Nat.zero_ne_one
  | node a children rest ihc ihr =>
    rcases once_node h with ⟨ha, hchildren, hrest⟩ | ⟨ha, hchildren, hrest⟩ | ⟨ha, hchildren, hrest⟩
    · exact ⟨a, children, by rw [cut, if_pos ha, cut_free hrest], ha, List.mem_cons_self, hchildren⟩
    · obtain ⟨b, below, hcut, hb, hmem, hbelow⟩ := ihc hchildren
      refine ⟨b, below, ?_, hb, List.mem_cons_of_mem _ (List.mem_append_left _ hmem), hbelow⟩
      rw [cut, ha, cut_free hrest, hcut]
      rfl
    · obtain ⟨b, below, hcut, hb, hmem, hbelow⟩ := ihr hrest
      refine ⟨b, below, ?_, hb, List.mem_cons_of_mem _ (List.mem_append_right _ hmem), hbelow⟩
      rw [cut, ha, cut_free hchildren, hcut]
      rfl

theorem prune_insertBefore_free (hfree : Free p t) :
    ((t.prune q).insertBefore p g).prune p = t.prune fun a => q a || p a := by
  rw [insertBefore_free (free_prune hfree), prune_prune]

section Splice

variable (hg : Free p g)
include hg

/-- When no node above it is dropped, the forest comes in the place of the node itself. -/
theorem splice_in_place (hp : Once p t) (hself : ∀ a ∈ t.labels, p a = true → q a = false)
    (habove : ∀ above, t.ancestors p = some above → above.any q = false) :
    ((t.prune q).insertBefore p g).prune p = t.splice (fun a => q a || p a) p g := by
  induction t with
  | nil => rfl
  | node a children rest ihc ihr =>
    rcases once_node hp with ⟨ha, -, hrest⟩ | ⟨ha, hchildren, hrest⟩ | ⟨ha, hchildren, hrest⟩
    · have hqa := hself a List.mem_cons_self ha
      rw [prune_neg hqa, insertBefore_pos ha, prune_append, prune_free hg, prune_pos ha,
        prune_insertBefore_free hrest, splice, hqa, ha, List.any_cons, ha, splice_free hrest]
      rfl
    · obtain ⟨above, hchain⟩ := ancestors_once hchildren
      have hchain' : (node a children rest).ancestors p = some (a :: above) := by
        rw [ancestors, ha, hchain]
        rfl
      have hany := habove _ hchain'
      rw [List.any_cons, Bool.or_eq_false_iff] at hany
      have ih := ihc hchildren
        (fun b hb => hself b (List.mem_cons_of_mem _ (List.mem_append_left _ hb)))
        fun above' h' => by cases hchain.symm.trans h'; exact hany.2
      rw [prune_neg hany.1, insertBefore_neg ha, prune_neg ha, ih, prune_insertBefore_free hrest,
        splice_or_neg hany.1 ha, splice_free hrest]
    · have hchain : (node a children rest).ancestors p = rest.ancestors p := by
        rw [ancestors, ha, ancestors_free hchildren]
        rfl
      have ih := ihr hrest
        (fun b hb => hself b (List.mem_cons_of_mem _ (List.mem_append_right _ hb)))
        fun above h' => habove above (hchain.trans h')
      have hany := any_eq_false hchildren ha
      cases hqa : q a with
      | true =>
        rw [prune_pos hqa, ih, splice, hqa, hany]
        rfl
      | false =>
        rw [prune_neg hqa, insertBefore_neg ha, prune_neg ha, ih,
          prune_insertBefore_free hchildren, splice_or_neg hqa ha, splice_free hchildren]

/-- When the node is moved before the outermost node above it that is dropped, the forest comes in
the place of that one. -/
theorem splice_hoisted (hp : Once p t) (hself : ∀ a ∈ t.labels, p a = true → q a = false)
    {outer : α → Bool} (houter : Once outer t) {above : List α} {r : α}
    (habove : t.ancestors p = some above) (hr : above.find? q = some r) (hrouter : outer r = true) :
    ((((t.prune p).insertBefore outer (t.cut p)).prune q).insertBefore p g).prune p =
      t.splice (fun a => q a || p a) p g := by
  induction t generalizing above with
  | nil => exact absurd hp Nat.zero_ne_one
  | node a children rest ihc ihr =>
    rcases once_node hp with ⟨ha, -, -⟩ | ⟨ha, hchildren, hrest⟩ | ⟨ha, hchildren, hrest⟩
    · rw [ancestors, if_pos ha] at habove
      cases habove
      cases hr
    · obtain ⟨above', hchain⟩ := ancestors_once hchildren
      rw [ancestors, ha, if_neg Bool.false_ne_true, hchain] at habove
      cases habove
      have hprune : (node a children rest).prune p = node a (children.prune p) rest := by
        rw [prune_neg ha, prune_free hrest]
      have hcut : (node a children rest).cut p = children.cut p := by
        rw [cut_neg ha, cut_free hrest, append_nil]
      rw [hprune, hcut]
      cases hqa : q a with
      | true =>
        -- the node itself is the outermost one, and the tree that is moved comes to stand before it
        rw [List.find?_cons_of_pos hqa] at hr
        rw [← Option.some.inj hr] at hrouter
        have hfree : Free outer children ∧ Free outer rest := by
          rcases once_node houter with ⟨-, h⟩ | ⟨hr, -⟩ | ⟨hr, -⟩
          · exact h
          · exact absurd (hr.symm.trans hrouter) Bool.false_ne_true
          · exact absurd (hr.symm.trans hrouter) Bool.false_ne_true
        obtain ⟨b, below, hcut, hb, hmem, hbelow⟩ := cut_once hchildren
        have hqb := hself b (List.mem_cons_of_mem _ (List.mem_append_left _ hmem)) hb
        have hany : (a :: children.labels).any p = true := by
          rw [List.any_cons, hchildren.any, Bool.or_true]
        have hmoved : (((node b below nil).prune q).insertBefore p g).prune p = g := by
          rw [prune_neg hqb, insertBefore_pos hb, prune_append, prune_free hg, prune_pos hb]
          exact append_nil g
        rw [insertBefore_pos hrouter, insertBefore_free hfree.2, hcut, prune_append, prune_pos hqa,
          insertBefore_append, prune_append, hmoved, prune_insertBefore_free hrest, splice, hqa,
          hany, splice_free hrest]
        rfl
      | false =>
        rw [List.find?_cons_of_neg (by simp [hqa])] at hr
        have hmem := mem_of_ancestors hchain (List.mem_of_find?_eq_some hr)
        obtain ⟨hoa, hochildren, horest⟩ := houter.of_children ⟨r, hmem, hrouter⟩
        have ih := ihc hchildren
          (fun b hb => hself b (List.mem_cons_of_mem _ (List.mem_append_left _ hb))) hochildren
          hchain hr
        rw [insertBefore_neg hoa, insertBefore_free horest, prune_neg hqa, insertBefore_neg ha,
          prune_neg ha, ih, prune_insertBefore_free hrest, splice_or_neg hqa ha, splice_free hrest]
    · rw [ancestors, ha, if_neg Bool.false_ne_true, ancestors_free hchildren] at habove
      have hmem := mem_of_ancestors habove (List.mem_of_find?_eq_some hr)
      obtain ⟨hoa, hochildren, horest⟩ := houter.of_append ⟨r, hmem, hrouter⟩
      have ih := ihr hrest
        (fun b hb => hself b (List.mem_cons_of_mem _ (List.mem_append_right _ hb))) horest habove hr
      have hprune : (node a children rest).prune p = node a children (rest.prune p) := by
        rw [prune_neg ha, prune_free hchildren]
      have hcut : (node a children rest).cut p = rest.cut p := by
        rw [cut_neg ha, cut_free hchildren, nil_append]
      rw [hprune, hcut, insertBefore_neg hoa, insertBefore_free hochildren]
      have hany := any_eq_false hchildren ha
      cases hqa : q a with
      | true =>
        rw [prune_pos hqa, ih, splice, hqa, hany]
        rfl
      | false =>
        rw [prune_neg hqa, insertBefore_neg ha, prune_neg ha, ih,
          prune_insertBefore_free hchildren, splice_or_neg hqa ha, splice_free hchildren]

end Splice

/-- The labels of the forest come in one piece among those that stay. -/
theorem labels_splice (hp : Once p t) (hcovered : ∀ a ∈ t.labels, p a = true → covered a = true) :
    ∃ before after, (t.splice covered p g).labels = before ++ g.labels ++ after ∧
      (t.prune covered).labels = before ++ after := by
  induction t with
  | nil => exact absurd hp Nat.zero_ne_one
  | node a children rest ihc ihr =>
    cases hca : covered a with
    | true =>
      rw [splice, if_pos hca, prune, if_pos hca]
      cases hany : (a :: children.labels).any p with
      | true =>
        have hrest : Free p rest := by
          rcases once_node hp with ⟨-, -, h⟩ | ⟨-, -, h⟩ | ⟨ha, h, -⟩
          · exact h
          · exact h
          · exact absurd ((any_eq_false h ha).symm.trans hany) Bool.false_ne_true
        exact ⟨[], (rest.prune covered).labels, by simp [splice_free hrest], rfl⟩
      | false =>
        rw [List.any_cons, Bool.or_eq_false_iff] at hany
        have hrest : Once p rest := by
          rcases once_node hp with ⟨ha, -, -⟩ | ⟨-, h, -⟩ | ⟨-, -, h⟩
          · exact absurd (hany.1.symm.trans ha) Bool.false_ne_true
          · exact absurd (hany.2.symm.trans h.any) Bool.false_ne_true
          · exact h
        exact ihr hrest fun b hb =>
          hcovered b (List.mem_cons_of_mem _ (List.mem_append_right _ hb))
    | false =>
      rw [splice_neg hca, prune_neg hca]
      rcases once_node hp with ⟨ha, -, -⟩ | ⟨-, hchildren, hrest⟩ | ⟨-, hchildren, hrest⟩
      · have hcovered := hcovered a List.mem_cons_self ha
        exact absurd (hca.symm.trans hcovered) Bool.false_ne_true
      · obtain ⟨before, after, hsplice, hprune⟩ := ihc hchildren fun b hb =>
          hcovered b (List.mem_cons_of_mem _ (List.mem_append_left _ hb))
        refine ⟨a :: before, after ++ (rest.prune covered).labels, ?_, ?_⟩
        · simp [hsplice, splice_free hrest]
        · simp [hprune]
      · obtain ⟨before, after, hsplice, hprune⟩ := ihr hrest fun b hb =>
          hcovered b (List.mem_cons_of_mem _ (List.mem_append_right _ hb))
        refine ⟨a :: ((children.prune covered).labels ++ before), after, ?_, ?_⟩
        · simp [hsplice, splice_free hchildren]
        · simp [hprune]

theorem appendChild_free (h : Free p t) : t.appendChild p g = t := by
  induction t with
  | nil => rfl
  | node a children rest ihc ihr =>
    obtain ⟨ha, hchildren, hrest⟩ := free_node.mp h
    rw [appendChild, ha, ihc hchildren, ihr hrest]
    rfl

theorem labels_appendChild (hp : Once p t) : ∃ before after,
    (t.appendChild p g).labels = before ++ g.labels ++ after ∧ t.labels = before ++ after := by
  induction t with
  | nil => exact absurd hp Nat.zero_ne_one
  | node a children rest ihc ihr =>
    rcases once_node hp with ⟨ha, -, hrest⟩ | ⟨ha, hchildren, hrest⟩ | ⟨ha, hchildren, hrest⟩
    · refine ⟨a :: children.labels, rest.labels, ?_, by simp⟩
      rw [appendChild, if_pos ha, appendChild_free hrest]
      simp
    · obtain ⟨before, after, happend, hlabels⟩ := ihc hchildren
      refine ⟨a :: before, after ++ rest.labels, ?_, by simp [hlabels]⟩
      rw [appendChild, ha, if_neg Bool.false_ne_true, appendChild_free hrest]
      simp [happend]
    · obtain ⟨before, after, happend, hlabels⟩ := ihr hrest
      refine ⟨a :: (children.labels ++ before), after, ?_, by simp [hlabels]⟩
      rw [appendChild, ha, if_neg Bool.false_ne_true, appendChild_free hchildren]
      simp [happend]

end Lemmas

end Forest

end GoraddServe.Forests
