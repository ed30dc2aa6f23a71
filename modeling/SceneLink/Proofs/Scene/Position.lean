import Mathlib.Algebra.BigOperators.Group.Finset.Basic
import Mathlib.Algebra.BigOperators.Group.Finset.Piecewise
import Mathlib.Algebra.Group.Int.Defs
import Mathlib.Algebra.Group.Prod
import Mathlib.Tactic.Abel
import SceneLink.Proofs.Double.Whole
import SceneLink.Proofs.Scene.Hierarchy

namespace SceneLink

abbrev Place := Int × Int × Int

namespace Double

-- Whole numbers so small that the difference of two is exact.
def OnGrid (x : Double) : Prop := ∃ n : Int, n.natAbs ≤ 2 ^ 52 ∧ x = ofInt n

variable {x y : Double}

theorem OnGrid.double? (hx : x.OnGrid) : (Json.ofDouble x).double? = some x := by
  obtain ⟨n, hn, rfl⟩ := hx
  exact Json.double?_ofDouble (by omega)

theorem OnGrid.sub (hx : x.OnGrid) (hy : y.OnGrid) :
    (x - y).toInt = x.toInt - y.toInt ∧ (Json.ofDouble (x - y)).double? = some (x - y) := by
  obtain ⟨m, hm, rfl⟩ := hx
  obtain ⟨n, hn, rfl⟩ := hy
  rw [sub_ofInt (by omega) (by omega), toInt_ofInt (by omega), toInt_ofInt (by omega), toInt_ofInt (by omega)]
  exact ⟨rfl, Json.double?_ofDouble (by omega)⟩

end Double

namespace Vec3

structure OnGrid (v : Vec3) : Prop where
  x : v.x.OnGrid
  y : v.y.OnGrid
  z : v.z.OnGrid

def place (v : Vec3) : Place := (v.x.toInt, v.y.toInt, v.z.toInt)

variable {v w : Vec3}

theorem ofJson?_toJson (hx : (Json.ofDouble v.x).double? = some v.x)
    (hy : (Json.ofDouble v.y).double? = some v.y) (hz : (Json.ofDouble v.z).double? = some v.z) :
    ofJson? v.toJson = some v := by
  unfold toJson ofJson?
  dsimp only
  rw [hx, hy, hz]
  rfl

theorem OnGrid.ofJson?_toJson (hv : v.OnGrid) : ofJson? v.toJson = some v :=
  Vec3.ofJson?_toJson hv.x.double? hv.y.double? hv.z.double?

theorem OnGrid.ofJson?_sub (hv : v.OnGrid) (hw : w.OnGrid) : ofJson? (v.sub w).toJson = some (v.sub w) :=
  Vec3.ofJson?_toJson (hv.x.sub hw.x).2 (hv.y.sub hw.y).2 (hv.z.sub hw.z).2

theorem OnGrid.place_sub (hv : v.OnGrid) (hw : w.OnGrid) : (v.sub w).place = v.place - w.place := by
  unfold place sub
  dsimp only
  rw [(hv.x.sub hw.x).1, (hv.y.sub hw.y).1, (hv.z.sub hw.z).1]
  rfl

end Vec3

namespace Hierarchy

open Relation (TransGen ReflTransGen)

variable {t : Hierarchy} {parent child a b d : Handle}

-- The way down to an object after another one has been hung.
theorem below_or_same_hang (hparent : parent < t.length) (hnot : ¬ReflTransGen t.Parent child parent) :
    ReflTransGen (t.hang parent child).Parent a b ↔ ReflTransGen t.Parent a b ∨
      ReflTransGen t.Parent a parent ∧ ReflTransGen t.Parent child b := by
  have hmono : t.Parent ≤ (t.hang parent child).Parent := fun _ _ hold => (parent_hang hparent).2 (.inl hold)
  constructor
  · intro h
    rcases Relation.reflTransGen_iff_eq_or_transGen.1 h with rfl | h
    · exact .inl .refl
    · exact (below_hang hparent hnot h).imp_left TransGen.to_reflTransGen
  · rintro (h | ⟨habove, hbelow⟩)
    · exact ReflTransGen.mono hmono _ _ h
    · have hplace : (t.hang parent child).Parent parent child := (parent_hang hparent).2 (.inr ⟨rfl, rfl⟩)
      exact ((ReflTransGen.mono hmono _ _ habove).tail hplace).trans (ReflTransGen.mono hmono _ _ hbelow)

open Classical in
-- An object and all that it hangs below.
noncomputable def lineage (t : Hierarchy) (h : Handle) : Finset Handle :=
  (Finset.range t.length).filter fun a => ReflTransGen t.Parent a h

theorem mem_lineage : a ∈ t.lineage d ↔ a < t.length ∧ ReflTransGen t.Parent a d := by
  simp only [lineage, Finset.mem_filter, Finset.mem_range]

theorem eq_of_mem_lineage (hroot : ∀ p, ¬t.Parent p d) (ha : a ∈ t.lineage d) : a = d := by
  rcases Relation.reflTransGen_iff_eq_or_transGen.1 (mem_lineage.1 ha).2 with heq | hbelow
  · exact heq.symm
  · obtain ⟨p, -, hparent⟩ := TransGen.tail'_iff.1 hbelow
    exact absurd hparent (hroot p)

theorem lineage_hang_of_below (hparent : parent < t.length) (hnot : ¬ReflTransGen t.Parent child parent)
    (hbelow : ReflTransGen t.Parent child d) :
    (t.hang parent child).lineage d = t.lineage d ∪ t.lineage parent := by
  ext a
  rw [Finset.mem_union, mem_lineage, mem_lineage, mem_lineage, below_or_same_hang hparent hnot]
  unfold hang
  rw [List.length_modify]
  tauto

theorem lineage_hang_of_not_below (hparent : parent < t.length) (hnot : ¬ReflTransGen t.Parent child parent)
    (hbelow : ¬ReflTransGen t.Parent child d) : (t.hang parent child).lineage d = t.lineage d := by
  ext a
  rw [mem_lineage, mem_lineage, below_or_same_hang hparent hnot]
  unfold hang
  rw [List.length_modify]
  tauto

end Hierarchy

namespace Scene

open Relation (TransGen ReflTransGen)

def position? (s : Scene) (h : Handle) : Option Vec3 :=
  match s.objects[h]? with
  | some (.entity e) => some e.position
  | _ => none

def place (s : Scene) (h : Handle) : Place := ((s.position? h).map Vec3.place).getD 0

-- The place of an object in the world: its own position, and those of all that it hangs below.
noncomputable def worldPlace (s : Scene) (h : Handle) : Place := ∑ a ∈ s.hierarchy.lineage h, s.place a

-- All positions are whole and small enough to be exact.
def OnGrid (s : Scene) : Prop := ∀ h v, s.position? h = some v → v.OnGrid

section Attaching

variable {s t : Scene} {above child d : Handle} {a c : Entity}

theorem position?_of_get (hget : s.objects[child]? = some (.entity c)) : s.position? child = some c.position := by
  unfold position?
  rw [hget]

theorem position?_put (hlt : child < s.objects.length) (c : Entity) (d : Handle) :
    (s.put child (.entity c)).position? d = if d = child then some c.position else s.position? d := by
  unfold position?
  rw [objects_put, if_pos hlt]
  by_cases hd : d = child
  · rw [if_pos hd, if_pos hd.symm]
  · rw [if_neg hd, if_neg (Ne.symm hd)]

private theorem canWrite_inUse (usage : Usage) (hwrite : s.canWrite child = true) (hne : above ≠ child) :
    (s.inUse above usage).canWrite child = true := by
  unfold canWrite inUse at *
  rw [List.all_cons, hwrite, Bool.and_true]
  exact decide_eq_true hne

private theorem writable_ok (hwrite : s.canWrite child = true) (hget : s.objects[child]? = some (.entity c)) :
    s.writable child = .ok (.entity c) := writable_eq_ok.2 ⟨hwrite, hget⟩

private theorem rebase_ok (hwrite : s.canWrite child = true) (hget : s.objects[child]? = some (.entity c))
    (hc : c.position.OnGrid) {origin : Vec3} (ho : origin.OnGrid) :
    s.rebase child origin = .ok (s.put child (.entity { c with position := c.position.sub origin })) := by
  have hread (found : Node → String) : Node.toVec3 found (.value c.position.toJson) = .ok c.position := by
    unfold Node.toVec3 Node.expect Node.json?
    dsimp only [Option.bind]
    rw [hc.ofJson?_toJson]
  have hwritten (found : Node → String) :
      Node.toVec3 found (.value (c.position.sub origin).toJson) = .ok (c.position.sub origin) := by
    unfold Node.toVec3 Node.expect Node.json?
    dsimp only [Option.bind]
    rw [hc.ofJson?_sub ho]
  have hset (found : Node → String) :
      (Object.entity c).setMember found "position" (.value (c.position.sub origin).toJson) =
        .ok (.entity { c with position := c.position.sub origin }) := by
    change Except.map Object.entity (Except.map _ (Node.toVec3 found _)) = _
    rw [hwritten]
    rfl
  unfold rebase
  rw [writable_ok hwrite hget]
  change (Node.toVec3 _ (.value c.position.toJson) >>= fun world =>
    s.setMember child "position" (.value (world.sub origin).toJson)) = _
  rw [hread]
  change s.setMember child "position" _ = _
  unfold setMember modify
  rw [writable_ok hwrite hget]
  change ((Object.entity c).setMember _ "position" _ >>= fun object => pure (s.put child object)) = _
  rw [hset]
  rfl

theorem addChild_plain (hwrite : s.canWrite above = true) (hget : s.objects[above]? = some (.entity a))
    (child : Handle) : s.addChild above child false =
      .ok (s.put above (.entity { a with children := a.children ++ [child] })) := by
  unfold addChild
  rw [writable_ok hwrite hget]
  rfl

theorem addChild_stays (hwrite : s.canWrite above = true) (hget : s.objects[above]? = some (.entity a))
    (hwrite' : s.canWrite child = true) (hget' : s.objects[child]? = some (.entity c)) (hne : above ≠ child)
    (ha : a.position.OnGrid) (hc : c.position.OnGrid) : s.addChild above child true =
      .ok ((s.put child (.entity { c with position := c.position.sub a.position })).put above
        (.entity { a with children := a.children ++ [child] })) := by
  have hmoved := rebase_ok (canWrite_inUse .writing hwrite' hne) (by exact hget') hc ha
  unfold addChild
  rw [writable_ok hwrite hget]
  dsimp only [bind, Except.bind]
  rw [if_pos rfl, hmoved]
  rfl

-- The new place in the hierarchy changes no position, and the child takes off that of its parent.
theorem position?_addChild_stays (hwrite : s.canWrite above = true) (hget : s.objects[above]? = some (.entity a))
    (hwrite' : s.canWrite child = true) (hget' : s.objects[child]? = some (.entity c)) (hne : above ≠ child)
    (ha : a.position.OnGrid) (hc : c.position.OnGrid) : ∃ t, s.addChild above child true = .ok t ∧
      ∀ d, t.position? d = if d = child then some (c.position.sub a.position) else s.position? d := by
  refine ⟨_, addChild_stays hwrite hget hwrite' hget' hne ha hc, fun d => ?_⟩
  obtain ⟨hlt, -⟩ := List.getElem?_eq_some_iff.1 hget
  obtain ⟨hlt', -⟩ := List.getElem?_eq_some_iff.1 hget'
  have hthere : above < (s.put child (.entity { c with position := c.position.sub a.position })).objects.length := by
    unfold put
    rwa [List.length_set]
  rw [position?_put hthere, position?_put hlt']
  by_cases hd : d = above
  · rw [if_pos hd, if_neg (hd ▸ hne), hd, position?_of_get hget]
  · rw [if_neg hd]

theorem position?_addChild_plain (hwrite : s.canWrite above = true) (hget : s.objects[above]? = some (.entity a))
    (child : Handle) : ∃ t, s.addChild above child false = .ok t ∧ ∀ d, t.position? d = s.position? d := by
  refine ⟨_, addChild_plain hwrite hget child, fun d => ?_⟩
  obtain ⟨hlt, -⟩ := List.getElem?_eq_some_iff.1 hget
  rw [position?_put hlt]
  split
  · next hd => rw [hd, position?_of_get hget]
  · rfl

end Attaching

section Places

variable {s t : Scene} {above child d : Handle}

theorem length_hierarchy (s : Scene) : s.hierarchy.length = s.objects.length := List.length_map _

theorem place_of_beyond (hbeyond : s.hierarchy.length ≤ d) : s.place d = 0 := by
  rw [length_hierarchy] at hbeyond
  unfold place position?
  rw [List.getElem?_eq_none hbeyond]
  rfl

-- An object that hangs nowhere stands where its own position says,
theorem worldPlace_of_root (hroot : ∀ p, ¬s.hierarchy.Parent p d) : s.worldPlace d = s.place d := by
  refine Finset.sum_eq_single d (fun a ha hne => ?_) fun hout => ?_
  · exact absurd (Hierarchy.eq_of_mem_lineage hroot ha) hne
  · refine place_of_beyond (Nat.not_lt.1 fun hlt => hout ?_)
    exact Hierarchy.mem_lineage.2 ⟨hlt, .refl⟩

-- and any other one at the place of its parent, and its own position further.
theorem worldPlace_of_parent (hacyclic : s.hierarchy.Acyclic) (hlt : d < s.hierarchy.length)
    (hparent : s.hierarchy.Parent above d) (honly : ∀ p, s.hierarchy.Parent p d → p = above) :
    s.worldPlace d = s.place d + s.worldPlace above := by
  have hout : d ∉ s.hierarchy.lineage above := fun hin =>
    hacyclic d (TransGen.tail' (Hierarchy.mem_lineage.1 hin).2 hparent)
  have hlineage : s.hierarchy.lineage d = insert d (s.hierarchy.lineage above) := by
    ext a
    rw [Finset.mem_insert, Hierarchy.mem_lineage, Hierarchy.mem_lineage, ReflTransGen.cases_tail_iff]
    constructor
    · rintro ⟨ha, rfl | ⟨p, hbelow, hedge⟩⟩
      · exact .inl rfl
      · exact .inr ⟨ha, honly p hedge ▸ hbelow⟩
    · rintro (rfl | ⟨ha, hbelow⟩)
      · exact ⟨hlt, .inl rfl⟩
      · exact ⟨ha, .inr ⟨above, hbelow, hparent⟩⟩
  unfold worldPlace
  rw [hlineage, Finset.sum_insert hout]

-- An object hangs below another one, and takes off the position of that one and no other.
structure Rebased (s : Scene) (above child : Handle) (t : Scene) : Prop where
  hierarchy : t.hierarchy = s.hierarchy.hang above child
  place : ∀ d, t.place d = s.place d - if d = child then s.place above else 0

section Sums

variable (h : s.Rebased above child t) (habove : above < s.hierarchy.length)
  (hnot : ¬ReflTransGen s.hierarchy.Parent child above)

include h habove hnot

theorem Rebased.worldPlace_of_not_below (hbelow : ¬ReflTransGen s.hierarchy.Parent child d) :
    t.worldPlace d = s.worldPlace d := by
  unfold worldPlace
  rw [h.hierarchy, Hierarchy.lineage_hang_of_not_below habove hnot hbelow]
  refine Finset.sum_congr rfl fun a ha => ?_
  have hne : a ≠ child := fun heq => hbelow (heq ▸ (Hierarchy.mem_lineage.1 ha).2)
  rw [h.place, if_neg hne, sub_zero]

-- What hangs below the child goes the way that the child goes: all of the way to the place of its parent,
-- and back by the position of the parent.
theorem Rebased.worldPlace_of_below (hchild : child < s.hierarchy.length)
    (hbelow : ReflTransGen s.hierarchy.Parent child d)
    (hapart : Disjoint (s.hierarchy.lineage d) (s.hierarchy.lineage above)) :
    t.worldPlace d = s.worldPlace d + (s.worldPlace above - s.place above) := by
  have hin : child ∈ s.hierarchy.lineage d := Hierarchy.mem_lineage.2 ⟨hchild, hbelow⟩
  have hout : child ∉ s.hierarchy.lineage above := fun hmem => hnot (Hierarchy.mem_lineage.1 hmem).2
  unfold worldPlace
  rw [h.hierarchy, Hierarchy.lineage_hang_of_below habove hnot hbelow, Finset.sum_union hapart]
  simp only [h.place, Finset.sum_sub_distrib, Finset.sum_ite_eq', if_pos hin, if_neg hout]
  abel

theorem Rebased.worldPlace_child (hchild : child < s.hierarchy.length)
    (hroot : ∀ p, ¬s.hierarchy.Parent p child) :
    t.worldPlace child = s.worldPlace child + (s.worldPlace above - s.place above) := by
  refine h.worldPlace_of_below habove hnot hchild .refl (Finset.disjoint_left.2 fun a ha ha' => ?_)
  obtain rfl := Hierarchy.eq_of_mem_lineage hroot ha
  exact hnot (Hierarchy.mem_lineage.1 ha').2

end Sums

variable {a c : Entity}

theorem rebased_addChild (hgrid : s.OnGrid) (habove : s.objects[above]? = some (.entity a))
    (hchild : s.objects[child]? = some (.entity c)) (hfree : s.canWrite above = true)
    (hfree' : s.canWrite child = true) (hne : above ≠ child) :
    ∃ t, s.addChild above child true = .ok t ∧ s.Rebased above child t := by
  have ha := hgrid above _ (position?_of_get habove)
  have hc := hgrid child _ (position?_of_get hchild)
  obtain ⟨t, hadd, hposition⟩ := position?_addChild_stays hfree habove hfree' hchild hne ha hc
  refine ⟨t, hadd, (hierarchy_addChild hadd).2, fun d => ?_⟩
  unfold place
  rw [hposition, position?_of_get habove]
  by_cases hd : d = child
  · rw [if_pos hd, if_pos hd, hd, position?_of_get hchild]
    exact hc.place_sub ha
  · rw [if_neg hd, if_neg hd, sub_zero]

-- An entity that hangs nowhere is hung below another one. If its place is to stay, it goes away from there by as
-- much as its new parent is away from what the position of the parent says, and takes along all that hangs below
-- it; so it stays only if what the parent hangs below adds up to nothing. Nothing else moves, and if its place is
-- not to stay no position changes at all.
theorem addChild_places (hgrid : s.OnGrid) (hacyclic : s.hierarchy.Acyclic)
    (habove : s.objects[above]? = some (.entity a)) (hchild : s.objects[child]? = some (.entity c))
    (hfree : s.canWrite above = true) (hfree' : s.canWrite child = true)
    (hroot : ∀ p, ¬s.hierarchy.Parent p child) (hnot : ¬ReflTransGen s.hierarchy.Parent child above) :
    (∃ t, s.addChild above child true = .ok t ∧ t.hierarchy.Acyclic ∧ s.Rebased above child t ∧
      t.worldPlace child = s.worldPlace child + (s.worldPlace above - s.place above) ∧
      (t.worldPlace child = s.worldPlace child ↔ s.worldPlace above = s.place above) ∧
      (∀ d, ReflTransGen s.hierarchy.Parent child d →
        Disjoint (s.hierarchy.lineage d) (s.hierarchy.lineage above) →
          t.worldPlace d = s.worldPlace d + (s.worldPlace above - s.place above)) ∧
      ∀ d, ¬ReflTransGen s.hierarchy.Parent child d → t.worldPlace d = s.worldPlace d) ∧
    ∃ t, s.addChild above child false = .ok t ∧ t.hierarchy.Acyclic ∧ ∀ d, t.position? d = s.position? d := by
  obtain ⟨hlt, -⟩ := List.getElem?_eq_some_iff.1 habove
  obtain ⟨hlt', -⟩ := List.getElem?_eq_some_iff.1 hchild
  rw [← length_hierarchy] at hlt hlt'
  have hne : above ≠ child := fun heq => hnot (heq ▸ .refl)
  have hhung : (s.hierarchy.hang above child).Acyclic := (Hierarchy.acyclic_hang hlt).2 ⟨hacyclic, hnot⟩
  constructor
  · obtain ⟨t, hadd, hrebased⟩ := rebased_addChild hgrid habove hchild hfree hfree' hne
    have hplace := hrebased.worldPlace_child hlt hnot hlt' hroot
    refine ⟨t, hadd, hrebased.hierarchy ▸ hhung, hrebased, hplace, ?_, fun d hbelow hapart => ?_, fun d => ?_⟩
    · rw [hplace, add_eq_left, sub_eq_zero]
    · exact hrebased.worldPlace_of_below hlt hnot hlt' hbelow hapart
    · exact hrebased.worldPlace_of_not_below hlt hnot
  · obtain ⟨t, hadd, hposition⟩ := position?_addChild_plain hfree habove child
    exact ⟨t, hadd, (hierarchy_addChild hadd).2 ▸ hhung, hposition⟩

end Places

-- A shelf that hangs below a cupboard, and a cup with a spoon in it.
section Cupboard

def kitchen : Scene where
  objects := [
    .entity { name := "Shelf", position := ⟨1, 0, 0⟩ },
    .entity { name := "Cupboard", position := ⟨10, 0, 0⟩, children := [0] },
    .entity { name := "Spoon", position := ⟨0, 2, 0⟩ },
    .entity { name := "Cup", position := ⟨3, 0, 0⟩, children := [2] }]

private theorem parent_kitchen {p d : Handle} :
    kitchen.hierarchy.Parent p d ↔ p = 1 ∧ d = 0 ∨ p = 3 ∧ d = 2 := by
  change (∃ children, [[], [0], [], [2]][p]? = some children ∧ d ∈ children) ↔ _
  rcases p with _ | _ | _ | _ | p <;> simp

private theorem kitchen_acyclic : kitchen.hierarchy.Acyclic := by
  intro h hcycle
  obtain ⟨_, -, hlast⟩ := TransGen.tail'_iff.1 hcycle
  obtain ⟨_, hfirst, -⟩ := TransGen.head'_iff.1 hcycle
  rcases parent_kitchen.1 hlast with ⟨-, rfl⟩ | ⟨-, rfl⟩
  all_goals rcases parent_kitchen.1 hfirst with ⟨hfirst, -⟩ | ⟨hfirst, -⟩
  all_goals exact absurd hfirst (by decide)

private theorem kitchen_onGrid : kitchen.OnGrid := by
  have hwhole {x y z : Nat} (hx : x ≤ 2 ^ 52) (hy : y ≤ 2 ^ 52) (hz : z ≤ 2 ^ 52) :
      Vec3.OnGrid ⟨OfNat.ofNat x, OfNat.ofNat y, OfNat.ofNat z⟩ :=
    ⟨⟨x, by omega, rfl⟩, ⟨y, by omega, rfl⟩, ⟨z, by omega, rfl⟩⟩
  have hentities : ∀ e, Object.entity e ∈ kitchen.objects → e.position.OnGrid := by
    intro e he
    simp only [kitchen, List.mem_cons, Object.entity.injEq, List.not_mem_nil, or_false] at he
    rcases he with rfl | rfl | rfl | rfl
    · exact hwhole (x := 1) (y := 0) (z := 0) (by decide) (by decide) (by decide)
    · exact hwhole (x := 10) (y := 0) (z := 0) (by decide) (by decide) (by decide)
    · exact hwhole (x := 0) (y := 2) (z := 0) (by decide) (by decide) (by decide)
    · exact hwhole (x := 3) (y := 0) (z := 0) (by decide) (by decide) (by decide)
  intro h v hv
  unfold position? at hv
  split at hv
  · next e he =>
    cases hv
    exact hentities e (List.mem_of_getElem? he)
  · cases hv

private theorem cup_root (p : Handle) : ¬kitchen.hierarchy.Parent p 3 := by
  intro hparent
  rcases parent_kitchen.1 hparent with ⟨-, h⟩ | ⟨-, h⟩
  all_goals exact absurd h (by decide)

-- Below the cup is the spoon.
theorem below_cup {h : Handle} (hbelow : ReflTransGen kitchen.hierarchy.Parent 3 h) : h = 3 ∨ h = 2 := by
  induction hbelow with
  | refl => exact .inl rfl
  | tail _ hedge ih =>
      rcases parent_kitchen.1 hedge with ⟨rfl, -⟩ | ⟨-, rfl⟩
      · rcases ih with ih | ih
        all_goals exact absurd ih (by decide)
      · exact .inr rfl

private theorem shelf_worldPlace : kitchen.worldPlace 0 = (11, 0, 0) ∧ kitchen.worldPlace 1 = (10, 0, 0) := by
  have hcupboard : kitchen.worldPlace 1 = kitchen.place 1 := worldPlace_of_root fun p hparent => by
    rcases parent_kitchen.1 hparent with ⟨-, h⟩ | ⟨-, h⟩
    all_goals exact absurd h (by decide)
  have hshelf : kitchen.worldPlace 0 = kitchen.place 0 + kitchen.worldPlace 1 :=
    worldPlace_of_parent kitchen_acyclic (by decide) (parent_kitchen.2 (.inl ⟨rfl, rfl⟩)) fun p hparent => by
      rcases parent_kitchen.1 hparent with ⟨h, -⟩ | ⟨-, h⟩
      · exact h
      · exact absurd h (by decide)
  have hplaces : kitchen.place 0 = (1, 0, 0) ∧ kitchen.place 1 = (10, 0, 0) := by decide +kernel
  rw [hshelf, hcupboard, hplaces.1, hplaces.2]
  exact ⟨rfl, rfl⟩

private theorem cup_not_above {h : Handle} (hh : ¬(h = 3 ∨ h = 2)) : ¬ReflTransGen kitchen.hierarchy.Parent 3 h :=
  fun hbelow => hh (below_cup hbelow)

-- Below the cupboard, which hangs nowhere itself, the cup stays where it is.
theorem addChild_places_kitchen : kitchen.OnGrid ∧ kitchen.hierarchy.Acyclic ∧
    (∀ p, ¬kitchen.hierarchy.Parent p 3) ∧ ¬ReflTransGen kitchen.hierarchy.Parent 3 1 ∧
    ∃ t, kitchen.addChild 1 3 true = .ok t ∧ t.worldPlace 3 = kitchen.worldPlace 3 ∧
      t.worldPlace 0 = kitchen.worldPlace 0 := by
  have hnot := cup_not_above (h := 1) (by decide)
  have hplace : kitchen.place 1 = (10, 0, 0) := by decide +kernel
  obtain ⟨⟨t, hadd, -, -, -, hstays, -, hothers⟩, -⟩ := addChild_places kitchen_onGrid kitchen_acyclic
    (show kitchen.objects[1]? = some (.entity _) from rfl) (show kitchen.objects[3]? = some (.entity _) from rfl)
    (by decide) (by decide) cup_root hnot
  exact ⟨kitchen_onGrid, kitchen_acyclic, cup_root, hnot, t, hadd,
    hstays.2 (shelf_worldPlace.2.trans hplace.symm), hothers 0 (cup_not_above (by decide))⟩

-- Below the shelf it does not: the shelf hangs below the cupboard.
theorem cup_moves : ∃ (s t : Scene) (above child : Handle), s.OnGrid ∧ s.hierarchy.Acyclic ∧
    (∀ p, ¬s.hierarchy.Parent p child) ∧ ¬ReflTransGen s.hierarchy.Parent child above ∧
    s.addChild above child true = .ok t ∧ t.worldPlace child ≠ s.worldPlace child := by
  have hnot := cup_not_above (h := 0) (by decide)
  obtain ⟨t, hadd, hrebased⟩ := rebased_addChild kitchen_onGrid
    (show kitchen.objects[0]? = some (.entity _) from rfl) (show kitchen.objects[3]? = some (.entity _) from rfl)
    (by decide) (by decide) (by decide)
  refine ⟨kitchen, t, 0, 3, kitchen_onGrid, kitchen_acyclic, cup_root, hnot, hadd, ?_⟩
  have hshelf : kitchen.place 0 = (1, 0, 0) := by decide +kernel
  rw [hrebased.worldPlace_child (by decide) hnot (by decide) cup_root, shelf_worldPlace.1, hshelf]
  exact fun heq => absurd (add_eq_left.1 heq) (by decide)

end Cupboard

end Scene

end SceneLink
