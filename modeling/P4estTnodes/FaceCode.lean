import P4estTnodes.Traverse

/-!
# The face code after the traversal

`iter_face1` is the only callback that writes `face_code`. It writes only for a local small
quadrant of a hanging face. After asserting that the bit of the face's axis is still clear, it
ORs in `(1 << (P4EST_DIM + (face >> 1))) | childid`. This module computes `face_code[le]` after
any traversal. Under the iterator contract it is the code `p4est_lnodes_t` documents: `0` for an
element that is the small side of no hanging face; otherwise the element's child id in bits
0 and 1, bit 2 if it is small on an x face (0 or 1), and bit 3 if it is small on a y face (2 or
3). Under the same contract the assertion holds.

* `runAction_faceCode`, `iterEvent_faceCode`, `traverse_faceCode_eq`: after a statement, an
  event or a whole traversal, `face_code[le]` is its value before, ORed with the codes of the
  small sides `le` takes there. No other statement writes it.
* `traverse_faceCode`: the contract has four parts. Every small side of `le` carries its child
  id `c < 4`, lies on a face below 4, and lies on the face of its axis that `c` selects
  (`p4est_corner_faces`). Each face of `le` occurs once. Under it, the final code is
  `lnodesFaceCode`, and every update finds its axis bit clear.
-/

namespace P4estTnodes

/-- What a statement ORs into `face_code[le]`.
Source: `iter_face1` (part_000 l. 659)
Kind: D -/
def TAction.faceCodeOf (le : Nat) : TAction → Nat
  | .orFaceCode q v => if q = le then v else 0
  | _ => 0

/-- The statement is `face_code[le] |= v`.
Source: `iter_face1` (part_000 l. 659)
Kind: D -/
def TAction.isFaceCode : TAction → Bool
  | .orFaceCode _ _ => true
  | _ => false

/-- The OR of a list of codes.
Source: none: infrastructure
Kind: D -/
def orAll (l : List Nat) : Nat := l.foldr (· ||| ·) 0

/-- The small quadrants of a face side that local element `le` is, with their face and child id.
Source: `iter_face1` (part_000 ll. 640–660)
Kind: D -/
def smallSidesOf (le : Nat) : FaceSide → List (Nat × Nat)
  | .full _ => []
  | .hanging s => [0, 1].flatMap fun j =>
      if !pick s.isGhost j && pick s.quadid j == le then [(s.face, pick s.childid j)] else []

/-- The small sides `le` takes in one event: only a face event of two sides has a hanging side.
Source: `iter_face1` (part_000 ll. 570–669)
Kind: D -/
def Event.smallSides (le : Nat) : Event → List (Nat × Nat)
  | .face ⟨_, [s0, s1]⟩ => smallSidesOf le s0 ++ smallSidesOf le s1
  | _ => []

/-- The small sides `le` takes in a sequence of events.
Source: none: infrastructure
Kind: D -/
def smallSidesIn (le : Nat) (evs : List Event) : List (Nat × Nat) :=
  evs.flatMap (Event.smallSides le)

/-- The code a small side `(face, childid)` ORs in.
Source: `iter_face1` (part_000 l. 659)
Kind: D -/
def smallCode (x : Nat × Nat) : Nat := (1 <<< (2 + x.1 / 2)) ||| x.2

/-- The face code of an element with child id `c` that is the small side of a hanging face
along the x axis (`hang.1`) or the y axis (`hang.2`).
Source: none: abstract model (the `face_code` of `p4est_lnodes_t`)
Kind: D -/
def lnodesFaceCode (c : Nat) (hang : Bool × Bool) : Nat :=
  if hang.1 || hang.2 then c + 4 * hang.1.toNat + 8 * hang.2.toNat else 0

/-- Whether `le` is the small side of a hanging face along axis `a` in `evs`.
Source: none: abstract model
Kind: D -/
def hangingAxis (le : Nat) (evs : List Event) (a : Nat) : Bool :=
  (smallSidesIn le evs).any fun x => x.1 / 2 == a

/-! ## Only the face code statement writes the face code -/

@[simp] lemma smallSidesIn_cons (le : Nat) (ev : Event) (evs : List Event) :
    smallSidesIn le (ev :: evs) = ev.smallSides le ++ smallSidesIn le evs := List.flatMap_cons _ _ _

@[simp] lemma smallSidesIn_append (le : Nat) (evs evs' : List Event) :
    smallSidesIn le (evs ++ evs') = smallSidesIn le evs ++ smallSidesIn le evs' :=
  List.flatMap_append _ _ _

@[simp] lemma orAll_nil : orAll [] = 0 := rfl

@[simp] lemma orAll_cons (x : Nat) (l : List Nat) : orAll (x :: l) = x ||| orAll l := rfl

lemma orAll_append (l l' : List Nat) : orAll (l ++ l') = orAll l ||| orAll l' := by
  induction l with
  | nil => rw [List.nil_append, orAll_nil, Nat.zero_or]
  | cons x l ih => rw [List.cons_append, orAll_cons, orAll_cons, ih, Nat.or_assoc]

lemma orAll_eq_zero {l : List Nat} (h : ∀ x ∈ l, x = 0) : orAll l = 0 := by
  induction l with
  | nil => rfl
  | cons x l ih =>
    rw [orAll_cons, h x (List.mem_cons_self _ _), Nat.zero_or]
    exact ih fun y hy => h y (List.mem_cons_of_mem _ hy)

/-- Statements that do not write the face code OR nothing into it.
Source: none: infrastructure
Kind: L -/
lemma orAll_faceCodeOf_eq_zero {acts : List TAction} (h : acts.all (fun a => !a.isFaceCode) = true)
    (le : Nat) : orAll (acts.map (TAction.faceCodeOf le)) = 0 :=
  orAll_eq_zero fun x hx => by
    obtain ⟨a, ha, rfl⟩ := List.mem_map.mp hx
    have := List.all_eq_true.mp h a ha
    cases a <;> simp_all [TAction.isFaceCode, TAction.faceCodeOf]

/-- **One statement.**
Source: `iter_face1` (part_000 l. 659)
Kind: L -/
lemma runAction_faceCode (st : TnodesMeta × (Nat → Option Nat)) (a : TAction) (le : Nat) :
    (runAction st a).1.faceCode le = st.1.faceCode le ||| a.faceCodeOf le := by
  cases a with
  | gregister arg g nodene bcon =>
    simp only [runAction]
    split <;> simp [TAction.faceCodeOf]
  | promote q =>
    simp only [runAction]
    split_ifs <;> simp [TAction.faceCodeOf, lregisterNew, nodeLfacetocorner, nCface]
  | orFaceCode q v =>
    by_cases h : q = le
    · subst h; simp [runAction, TAction.faceCodeOf]
    · simp [runAction, TAction.faceCodeOf, Function.update_noteq (Ne.symm h), h]
  | _ => simp [runAction, TAction.faceCodeOf]

lemma foldl_runAction_faceCode (le : Nat) : ∀ (acts : List TAction) (st : TnodesMeta × (Nat → Option Nat)),
    (acts.foldl runAction st).1.faceCode le =
      st.1.faceCode le ||| orAll (acts.map (TAction.faceCodeOf le))
  | [], st => (Nat.or_zero _).symm
  | a :: as, st => by
    rw [List.foldl_cons, foldl_runAction_faceCode le as, runAction_faceCode, List.map_cons,
      orAll_cons, Nat.or_assoc]

lemma orAll_hangingFaceSideActions (fc : Nat → Nat → Nat) (withFaces : Bool) (o i le : Nat)
    (side : FaceSide) :
    orAll ((hangingFaceSideActions fc withFaces o i side).map (TAction.faceCodeOf le)) =
      orAll ((smallSidesOf le side).map smallCode) := by
  cases side with
  | full s =>
    have h : (hangingFaceSideActions fc withFaces o i (.full s)).all (fun a => !a.isFaceCode) := by
      simp only [hangingFaceSideActions, largeSideActions]; split_ifs <;> rfl
    rw [orAll_faceCodeOf_eq_zero h]
    rfl
  | hanging s =>
    simp only [hangingFaceSideActions, smallSidesOf, List.flatMap_cons, List.flatMap_nil,
      List.append_nil, List.map_append, orAll_append]
    congr 1 <;> simp only [smallQuadActions] <;> split_ifs <;>
      simp_all [TAction.faceCodeOf, smallCode]

/-- **One event.**
Source: `iter_volume1`, `iter_face1`, `iter_corner1` (part_000 ll. 483–698)
Kind: L -/
lemma iterEvent_faceCode (fc : Nat → Nat → Nat) (me : TnodesMeta) (ev : Event) (le : Nat) :
    (iterEvent fc me ev).faceCode le = me.faceCode le ||| orAll ((ev.smallSides le).map smallCode) := by
  cases ev with
  | volume vi =>
    rw [iterEvent, iterVolume1, runActions, foldl_runAction_faceCode,
      orAll_faceCodeOf_eq_zero (by unfold iterVolume1Actions; split_ifs <;> rfl)]
    rfl
  | corner sides =>
    rw [iterEvent, runActions, foldl_runAction_faceCode, orAll_faceCodeOf_eq_zero ?_]
    · rfl
    refine List.all_eq_true.mpr fun a ha => ?_
    obtain ⟨cs, -, rfl⟩ := List.mem_map.mp ha
    split <;> rfl
  | face fi =>
    rw [iterEvent, runActions, foldl_runAction_faceCode]
    congr 1
    obtain ⟨o, sides⟩ := fi
    match sides with
    | [] => rfl
    | [.full s] =>
      rw [orAll_faceCodeOf_eq_zero (by simp only [iterFace1Actions]; split <;> rfl)]
      rfl
    | [.hanging s] => rfl
    | [.full s0, .full s1] =>
      rw [orAll_faceCodeOf_eq_zero (by
        simp only [iterFace1Actions, conformingSideActions]; split_ifs <;> rfl)]
      rfl
    | [.full s0, .hanging s1] | [.hanging s0, .full s1] | [.hanging s0, .hanging s1] =>
      simp only [iterFace1Actions, Event.smallSides, List.map_append, orAll_append,
        orAll_hangingFaceSideActions]
    | s0 :: s1 :: s2 :: rest => cases s0 <;> cases s1 <;> cases s2 <;> rfl

/-- **A whole traversal.** `face_code[le]` is its initial value ORed with the codes of all small
sides `le` takes.
Source: `p4est_tnodes_new` (part_000 l. 1492), `iter_face1` (l. 659)
Kind: L -/
lemma traverse_faceCode_eq (fc : Nat → Nat → Nat) (le : Nat) : ∀ (evs : List Event) (me : TnodesMeta),
    (traverse fc me evs).faceCode le = me.faceCode le ||| orAll ((smallSidesIn le evs).map smallCode)
  | [], _ => (Nat.or_zero _).symm
  | ev :: evs, me => by
    rw [traverse, List.foldl_cons, ← traverse, traverse_faceCode_eq fc le evs, iterEvent_faceCode,
      smallSidesIn_cons, List.map_append, orAll_append, Nat.or_assoc]

/-! ## The face code under the iterator contract -/

/-- ORing in one more small side's code sets the bit of its axis.
Source: none: infrastructure
Kind: L -/
lemma smallCode_or_lnodesFaceCode : ∀ a < 2, ∀ c < 4, ∀ b0 b1 : Bool,
    ((1 <<< (2 + a)) ||| c) ||| lnodesFaceCode c (b0, b1) =
      lnodesFaceCode c ((a == 0) || b0, (a == 1) || b1) := by
  decide

/-- The bit of an axis is clear in the face code of an element that is not small along it.
Source: none: infrastructure
Kind: L -/
lemma lnodesFaceCode_and : ∀ a < 2, ∀ c < 4, ∀ b0 b1 : Bool, (if a = 0 then b0 else b1) = false →
    lnodesFaceCode c (b0, b1) &&& (1 <<< (2 + a)) = 0 := by
  decide

lemma orAll_smallCode {c : Nat} (hc : c < 4) : ∀ S : List (Nat × Nat), (∀ x ∈ S, x.2 = c ∧ x.1 < 4) →
    orAll (S.map smallCode) = lnodesFaceCode c (S.any (·.1 / 2 == 0), S.any (·.1 / 2 == 1))
  | [], _ => rfl
  | x :: S, h => by
    obtain ⟨hx2, hx1⟩ := h x (List.mem_cons_self _ _)
    rw [List.map_cons, orAll_cons, orAll_smallCode hc S fun y hy => h y (List.mem_cons_of_mem _ hy),
      smallCode, hx2, smallCode_or_lnodesFaceCode _ (by omega) c hc, List.any_cons, List.any_cons]

/-- When every small side of `le` carries the child id `c < 4` and a face below 4, the face code
after the traversal is `lnodesFaceCode`.
Source: `iter_face1` (part_000 l. 659)
Kind: L -/
lemma traverse_faceCode_of_sides (fc : Nat → Nat → Nat) {me : TnodesMeta} {le c : Nat}
    (h0 : me.faceCode le = 0) (hc : c < 4) {evs : List Event}
    (h : ∀ x ∈ smallSidesIn le evs, x.2 = c ∧ x.1 < 4) :
    (traverse fc me evs).faceCode le = lnodesFaceCode c (hangingAxis le evs 0, hangingAxis le evs 1) := by
  rw [traverse_faceCode_eq, h0, Nat.zero_or, orAll_smallCode hc _ h]
  rfl

/-- Before an event in which `le` is small on a face, `le` is small along no face of that axis:
such a face would be the same face, by the child id, and each face occurs once.
Source: `iter_face1` (part_000 ll. 655–657)
Kind: L -/
lemma hangingAxis_before {le c : Nat} {pre post : List Event} {ev : Event}
    (hside : ∀ x ∈ smallSidesIn le (pre ++ ev :: post), x.1 % 2 = (c >>> (x.1 / 2)) % 2)
    (hfaces : ((smallSidesIn le (pre ++ ev :: post)).map Prod.fst).Nodup)
    {x : Nat × Nat} (hx : x ∈ ev.smallSides le) : hangingAxis le pre (x.1 / 2) = false := by
  rw [smallSidesIn_append, smallSidesIn_cons] at hside hfaces
  rw [List.map_append, List.nodup_append] at hfaces
  have hxp := hside x (List.mem_append_right _ (List.mem_append_left _ hx))
  rw [hangingAxis, List.any_eq_false]
  intro y hy hyx
  have hyp := hside y (List.mem_append_left _ hy)
  have hax : y.1 / 2 = x.1 / 2 := beq_iff_eq.mp hyx
  have hxy : y.1 = x.1 := by rw [hax] at hyp; omega
  exact hfaces.2.2 (List.mem_map_of_mem Prod.fst hy)
    (by rw [hxy]; exact List.mem_map_of_mem Prod.fst (List.mem_append_left _ hx))

/-- **The face code is the one `p4est_lnodes_t` documents, and the assertion holds.** Assume four
things of the iterator. Every small side of `le` carries `le`'s child id `c < 4`. It lies on a
face below 4. It lies on the face of its axis that the child id selects. The faces of `le`'s
small sides are distinct. Then, from a zero code, `face_code[le]` after the traversal is
`lnodesFaceCode`: `0` if `le` is small on no hanging face, otherwise `c` plus 4 if it is small
on an x face plus 8 if on a y face. And at every event in which `le` is a small side, the bit
of the face's axis is still clear, as the source asserts.
Source: `iter_face1` (part_000 ll. 638–661)
Kind: P -/
theorem traverse_faceCode (fc : Nat → Nat → Nat) (me : TnodesMeta) (evs : List Event) (le c : Nat)
    (h0 : me.faceCode le = 0) (hc : c < 4)
    (hside : ∀ x ∈ smallSidesIn le evs, x.2 = c ∧ x.1 < 4 ∧ x.1 % 2 = (c >>> (x.1 / 2)) % 2)
    (hfaces : ((smallSidesIn le evs).map Prod.fst).Nodup) :
    (traverse fc me evs).faceCode le = lnodesFaceCode c (hangingAxis le evs 0, hangingAxis le evs 1) ∧
    ∀ pre ev post, evs = pre ++ ev :: post → ∀ x ∈ ev.smallSides le,
      (traverse fc me pre).faceCode le &&& (1 <<< (2 + x.1 / 2)) = 0 := by
  refine ⟨traverse_faceCode_of_sides fc h0 hc fun x hx => ⟨(hside x hx).1, (hside x hx).2.1⟩, ?_⟩
  rintro pre ev post rfl x hx
  have hpre : ∀ y ∈ smallSidesIn le pre, y.2 = c ∧ y.1 < 4 := fun y hy =>
    have h := hside y (by rw [smallSidesIn_append]; exact List.mem_append_left _ hy)
    ⟨h.1, h.2.1⟩
  have hx4 : x.1 < 4 := (hside x (by
    rw [smallSidesIn_append, smallSidesIn_cons]
    exact List.mem_append_right _ (List.mem_append_left _ hx))).2.1
  have hfree := hangingAxis_before (fun y hy => (hside y hy).2.2) hfaces hx
  rw [traverse_faceCode_of_sides fc h0 hc hpre]
  refine lnodesFaceCode_and _ (by omega) c hc _ _ ?_
  split_ifs with ha
  · rwa [ha] at hfree
  · rwa [show x.1 / 2 = 1 by omega] at hfree

/-- Element 0, child 1 of its parent, is the local small quadrant 0 of a hanging face on its
face 1, whose large side is a ghost: its face code is `1 + 4`. -/
theorem traverse_faceCode_smallOnXFace :
    (TnodesMeta.init false false 2 0 (some [(1, 0)]) 1).faceCode 0 = 0 ∧ 1 < 4 ∧
    (∀ x ∈ smallSidesIn 0 [.volume ⟨1, 1⟩,
        .face ⟨0, [.full ⟨0, true, 0⟩, .hanging ⟨1, (false, true), (0, 0), (1, 3)⟩]⟩],
      x.2 = 1 ∧ x.1 < 4 ∧ x.1 % 2 = (1 >>> (x.1 / 2)) % 2) ∧
    ((smallSidesIn 0 [.volume ⟨1, 1⟩,
        .face ⟨0, [.full ⟨0, true, 0⟩, .hanging ⟨1, (false, true), (0, 0), (1, 3)⟩]⟩]).map
      Prod.fst).Nodup ∧
    (traverse p4estFaceCorners (TnodesMeta.init false false 2 0 (some [(1, 0)]) 1)
      [.volume ⟨1, 1⟩,
        .face ⟨0, [.full ⟨0, true, 0⟩, .hanging ⟨1, (false, true), (0, 0), (1, 3)⟩]⟩]).faceCode 0 = 5 :=
  ⟨rfl, by decide, by decide, by decide,
    (traverse_faceCode p4estFaceCorners _ _ 0 1 rfl (by decide) (by decide) (by decide)).1.trans
      (by decide)⟩

end P4estTnodes
