import P4estTnodes.Traverse

/-!
# One element through the traversal: slots, configuration and the table rows

Fix a local element `le`. The traversal registers its slots and updates its configuration only
in the events in which `le` appears: its volume event, the face events of its four faces (as
boundary side, conforming side, large side or small side of a hanging face) and the corner
events of its corners. This file proves that, for every order of such events that follows the
iterator contract, the code registers each slot of `le` at most once, populates exactly the
positions of the table row of `le`'s final configuration, and leaves a configuration in
`{0..16, 32}` whose face bits are the faces on which `le` is the large side.

* `traverseLog` records the `(element, position)` of every local registration of a run, next to
  the run itself. `traverse_elementNodes_ne` reads `element_nodes` off it.
* `actStep` is the effect of one statement on `le` (its configuration and its registered
  positions); `runActions_project` proves the code's statements have exactly that effect.
* `roleStep` is the effect of one role of `le` in an event; `eventActions_project` proves the
  statements of an event project to the roles of `le` in it.
* `rolesRun_spec` evaluates the roles under the contract: the registered positions are a
  permutation of `canonRegs`, and `canonRegs_table` checks every case against the tables.
-/

namespace P4estTnodes

/-! ## The log of local registrations -/

/-- The positions the promotion block registers.
Source: `iter_face1` (part_000 ll. 609–617)
Kind: D -/
def promoRegs (withFaces : Bool) : List Nat := if !withFaces then [nCenter] else nCface

/-- The local registrations `(element, position)` that one statement performs.
Source: `node_lregister`, `iter_face1` (part_000 ll. 425–430, 606–618)
Kind: D -/
def actionLog (me : TnodesMeta) : TAction → List (Nat × Nat)
  | .lregister _ le nodene _ => [(le, nodene)]
  | .promote le =>
    if me.configuration le &&& 239 = 0 then (promoRegs me.withFaces).map (le, ·) else []
  | _ => []

/-- The local registrations of a sequence of statements, each read in the state it runs in.
Source: none: observation of the model
Kind: D -/
def actionsLog : TnodesMeta × (Nat → Option Nat) → List TAction → List (Nat × Nat)
  | _, [] => []
  | st, a :: as => actionLog st.1 a ++ actionsLog (runAction st a) as

/-- The state an event's statements start in: the volume callback first counts the element.
Source: `iter_volume1` (part_000 l. 503)
Kind: D -/
def eventStart (me : TnodesMeta) : Event → TnodesMeta
  | .volume _ => { me with lenum := me.lenum + 1 }
  | _ => me

/-- The statements of an event.
Source: `iter_volume1`, `iter_face1`, `iter_corner1`
Kind: D -/
def eventActions (faceCorners : Nat → Nat → Nat) (me : TnodesMeta) : Event → List TAction
  | .volume vi => iterVolume1Actions me.fullStyle me.withFaces me.lenum vi
  | .face fi => iterFace1Actions faceCorners me.withFaces fi
  | .corner sides => iterCorner1Actions sides

lemma iterEvent_eq (faceCorners : Nat → Nat → Nat) (me : TnodesMeta) (ev : Event) :
    iterEvent faceCorners me ev = runActions (eventStart me ev) (eventActions faceCorners me ev) := by
  cases ev <;> rfl

/-- The local registrations of a traversal, in order.
Source: none: observation of the model
Kind: D -/
def traverseLog (faceCorners : Nat → Nat → Nat) : TnodesMeta → List Event → List (Nat × Nat)
  | _, [] => []
  | me, ev :: evs => actionsLog (eventStart me ev, fun _ => none) (eventActions faceCorners me ev) ++
      traverseLog faceCorners (iterEvent faceCorners me ev) evs

/-! ## Frame lemmas of a statement -/

/-- The fields no traversal statement writes.
Source: none: infrastructure
Kind: D -/
def TnodesMeta.frame (me : TnodesMeta) : Bool × Bool × Nat × Option (List (Nat × Nat)) × Nat :=
  (me.fullStyle, me.withFaces, me.mpirank, me.ghost, me.lenum)

@[simp] lemma lregisterNew_frame (me : TnodesMeta) (le nodene : Nat) (bcon : Bcon) :
    (lregisterNew me le nodene bcon).frame = me.frame := rfl

@[simp] lemma lregisterNew_configuration (me : TnodesMeta) (le nodene : Nat) (bcon : Bcon) :
    (lregisterNew me le nodene bcon).configuration = me.configuration := rfl

lemma lregisterNew_elementNodes (me : TnodesMeta) (le nodene : Nat) (bcon : Bcon) :
    (lregisterNew me le nodene bcon).elementNodes =
      Function.update me.elementNodes (le * me.vnodes + nodene) me.construct.length := by
  simp [lregisterNew, nodeRegister_elementNodes]

@[simp] lemma nodeLfacetocorner_frame (me : TnodesMeta) (le nodene : Nat) :
    (nodeLfacetocorner me le nodene).frame = me.frame := rfl

@[simp] lemma nodeLfacetocorner_configuration (me : TnodesMeta) (le nodene : Nat) :
    (nodeLfacetocorner me le nodene).configuration = me.configuration := rfl

@[simp] lemma nodeLfacetocorner_elementNodes (me : TnodesMeta) (le nodene : Nat) :
    (nodeLfacetocorner me le nodene).elementNodes = me.elementNodes := rfl

lemma TnodesMeta.vnodes_of_frame {me me' : TnodesMeta} (h : me'.frame = me.frame) :
    me'.vnodes = me.vnodes := by
  simp only [TnodesMeta.frame, Prod.mk.injEq] at h
  simp [TnodesMeta.vnodes, h.2.1]

/-- No statement writes the frame fields.
Source: none: infrastructure
Kind: L -/
@[simp] lemma runAction_frame (st : TnodesMeta × (Nat → Option Nat)) (a : TAction) :
    (runAction st a).1.frame = st.1.frame := by
  cases a with
  | gregister arg g nodene bcon =>
    simp only [runAction]
    split <;> rfl
  | promote le =>
    simp only [runAction]
    split_ifs <;> simp [nCface]
  | _ => rfl

lemma runActions_foldl_frame (st : TnodesMeta × (Nat → Option Nat)) (acts : List TAction) :
    (acts.foldl runAction st).1.frame = st.1.frame := by
  induction acts generalizing st with
  | nil => rfl
  | cons a as ih => rw [List.foldl_cons, ih, runAction_frame]

/-! ## `element_nodes` is read off the log -/

/-- The ghost layer lists only elements of other processes (`node_register` asserts
`rank != me->mpirank` for every ghost contribution).
Source: `node_register` (part_000 l. 342)
Kind: D -/
def GhostRemote (me : TnodesMeta) : Prop :=
  ∀ gl, me.ghost = some gl → ∀ x ∈ gl, x.1 ≠ me.mpirank

lemma GhostRemote.of_frame {me me' : TnodesMeta} (h : me'.frame = me.frame) (hg : GhostRemote me) :
    GhostRemote me' := by
  simp only [TnodesMeta.frame, Prod.mk.injEq] at h
  intro gl hgl
  rw [h.2.2.1]
  rw [h.2.2.2.1] at hgl
  exact hg gl hgl

/-- Fresh local registrations of the positions `ns` of `le`.
Source: none: infrastructure
Kind: L -/
lemma foldl_lregisterNew_elementNodes (le : Nat) (bcon : Bcon) (s : Nat) :
    ∀ (ns : List Nat) (me : TnodesMeta),
      (ns.foldl (fun me n => lregisterNew me le n bcon) me).elementNodes s ≠ -1 ↔
        me.elementNodes s ≠ -1 ∨ ∃ n ∈ ns, le * me.vnodes + n = s
  | [], me => by simp
  | n :: ns, me => by
    rw [List.foldl_cons, foldl_lregisterNew_elementNodes le bcon s ns,
      TnodesMeta.vnodes_of_frame (lregisterNew_frame me le n bcon), lregisterNew_elementNodes]
    by_cases hs : le * me.vnodes + n = s
    · subst hs; simp
    · rw [Function.update_noteq (Ne.symm hs)]
      simp [hs]

/-- **One statement.** A slot of `element_nodes` is set after a statement iff it was set before
or the statement registers it locally.
Source: `node_register` (part_000 ll. 378–381)
Kind: L -/
lemma runAction_elementNodes (st : TnodesMeta × (Nat → Option Nat)) (a : TAction)
    (hg : GhostRemote st.1) (s : Nat) :
    (runAction st a).1.elementNodes s ≠ -1 ↔
      st.1.elementNodes s ≠ -1 ∨ ∃ x ∈ actionLog st.1 a, x.1 * st.1.vnodes + x.2 = s := by
  cases a with
  | lregister arg le nodene bcon =>
    simp only [runAction, actionLog, nodeRegister_elementNodes, Option.getD_none, if_true,
      List.mem_singleton, exists_eq_left]
    by_cases hs : le * st.1.vnodes + nodene = s
    · subst hs; simp
    · rw [Function.update_noteq (Ne.symm hs)]; simp [hs]
  | gregister arg g nodene bcon =>
    simp only [runAction, actionLog]
    split
    · simp
    · rename_i gq hgq
      obtain ⟨gl, hgl, hgq⟩ := Option.bind_eq_some.mp hgq
      have hr : gq.1 ≠ st.1.mpirank := hg gl hgl gq (List.getElem?_mem hgq)
      simp [nodeRegister_elementNodes, hr]
  | promote le =>
    simp only [runAction, actionLog, promoRegs]
    split_ifs with h1 h2
    · simp only [lregisterNew_elementNodes]
      by_cases hs : le * st.1.vnodes + nCenter = s
      · subst hs; simp
      · rw [Function.update_noteq (Ne.symm hs)]; simp [hs]
    · rw [foldl_lregisterNew_elementNodes,
        TnodesMeta.vnodes_of_frame (nodeLfacetocorner_frame _ _ _)]
      simp
    · simp
  | _ => simp [runAction, actionLog]

/-- **A sequence of statements.**
Source: none: infrastructure
Kind: L -/
lemma actionsLog_elementNodes (s : Nat) :
    ∀ (acts : List TAction) (st : TnodesMeta × (Nat → Option Nat)), GhostRemote st.1 →
      ((acts.foldl runAction st).1.elementNodes s ≠ -1 ↔
        st.1.elementNodes s ≠ -1 ∨ ∃ x ∈ actionsLog st acts, x.1 * st.1.vnodes + x.2 = s)
  | [], st, _ => by simp [actionsLog]
  | a :: as, st, hg => by
    have hf := runAction_frame st a
    rw [List.foldl_cons, actionsLog_elementNodes s as _ (hg.of_frame hf),
      runAction_elementNodes st a hg, TnodesMeta.vnodes_of_frame hf]
    simp only [actionsLog, List.mem_append]
    constructor
    · rintro ((h | ⟨x, hx, rfl⟩) | ⟨x, hx, rfl⟩)
      · exact .inl h
      · exact .inr ⟨x, .inl hx, rfl⟩
      · exact .inr ⟨x, .inr hx, rfl⟩
    · rintro (h | ⟨x, hx | hx, rfl⟩)
      · exact .inl (.inl h)
      · exact .inl (.inr ⟨x, hx, rfl⟩)
      · exact .inr ⟨x, hx, rfl⟩

lemma eventStart_frame_vnodes (me : TnodesMeta) (ev : Event) :
    (eventStart me ev).vnodes = me.vnodes ∧ (eventStart me ev).elementNodes = me.elementNodes ∧
      (GhostRemote me → GhostRemote (eventStart me ev)) := by
  cases ev <;> exact ⟨rfl, rfl, id⟩

lemma iterEvent_vnodes_ghost (fc : Nat → Nat → Nat) (me : TnodesMeta) (ev : Event) :
    (iterEvent fc me ev).vnodes = me.vnodes ∧ (GhostRemote me → GhostRemote (iterEvent fc me ev)) := by
  have hf := runActions_foldl_frame (eventStart me ev, fun _ => none) (eventActions fc me ev)
  rw [iterEvent_eq]
  obtain ⟨h1, -, h3⟩ := eventStart_frame_vnodes me ev
  exact ⟨(TnodesMeta.vnodes_of_frame hf).trans h1, fun hg => (h3 hg).of_frame hf⟩

/-- **The traversal.** A slot of `element_nodes` is set after a traversal iff it was set before
or some local registration of the run targets it.
Source: none: infrastructure
Kind: L -/
lemma traverse_elementNodes_ne (fc : Nat → Nat → Nat) (s : Nat) :
    ∀ (evs : List Event) (me : TnodesMeta), GhostRemote me →
      ((traverse fc me evs).elementNodes s ≠ -1 ↔
        me.elementNodes s ≠ -1 ∨ ∃ x ∈ traverseLog fc me evs, x.1 * me.vnodes + x.2 = s)
  | [], me, _ => by simp [traverse, traverseLog]
  | ev :: evs, me, hg => by
    obtain ⟨hv, hg'⟩ := iterEvent_vnodes_ghost fc me ev
    obtain ⟨hv0, he0, hg0⟩ := eventStart_frame_vnodes me ev
    have h1 : (iterEvent fc me ev).elementNodes s ≠ -1 ↔ me.elementNodes s ≠ -1 ∨
        ∃ x ∈ actionsLog (eventStart me ev, fun _ => none) (eventActions fc me ev),
          x.1 * me.vnodes + x.2 = s := by
      rw [iterEvent_eq, runActions, actionsLog_elementNodes s _ _ (hg0 hg), he0, hv0]
    have := traverse_elementNodes_ne fc s evs (iterEvent fc me ev) (hg' hg)
    simp only [traverse, List.foldl_cons] at this ⊢
    rw [this, hv, h1]
    simp only [traverseLog, List.mem_append]
    constructor
    · rintro ((h | ⟨x, hx, rfl⟩) | ⟨x, hx, rfl⟩)
      · exact .inl h
      · exact .inr ⟨x, .inl hx, rfl⟩
      · exact .inr ⟨x, .inr hx, rfl⟩
    · rintro (h | ⟨x, hx | hx, rfl⟩)
      · exact .inl (.inl h)
      · exact .inl (.inr ⟨x, hx, rfl⟩)
      · exact .inr ⟨x, hx, rfl⟩

/-! ## The statements projected on one element -/

/-- The positions a log registers at element `le`, in order.
Source: none: observation of the model
Kind: D -/
def logAt (le : Nat) (log : List (Nat × Nat)) : List Nat :=
  log.filterMap fun x => if x.1 = le then some x.2 else none

@[simp] lemma logAt_append (le : Nat) (l₁ l₂ : List (Nat × Nat)) :
    logAt le (l₁ ++ l₂) = logAt le l₁ ++ logAt le l₂ := List.filterMap_append _ _ _

/-- The effect of one statement on element `le`: its configuration, and the positions it
registers at `le`.
Source: none: abstract model of `runAction` on one element
Kind: D -/
def actStep (le : Nat) (withFaces : Bool) (x : Nat × List Nat) : TAction → Nat × List Nat
  | .lregister _ l p _ => if l = le then (x.1, x.2 ++ [p]) else x
  | .setConfiguration l v => if l = le then (v, x.2) else x
  | .promote l => if l = le ∧ x.1 &&& 239 = 0 then (x.1, x.2 ++ promoRegs withFaces) else x
  | .setFaceBit l f => if l = le then ((x.1 &&& 207) ||| (1 <<< f), x.2) else x
  | _ => x

/-- **One statement, projected.** The code's statement changes `le`'s configuration and
registers positions at `le` exactly as `actStep` says.
Source: `iter_volume1`, `iter_face1`, `iter_corner1`
Kind: L -/
lemma runAction_project (st : TnodesMeta × (Nat → Option Nat)) (a : TAction) (le : Nat)
    (R : List Nat) :
    actStep le st.1.withFaces (st.1.configuration le, R) a =
      ((runAction st a).1.configuration le, R ++ logAt le (actionLog st.1 a)) := by
  cases a with
  | lregister arg l p bcon =>
    by_cases h : l = le <;> simp [actStep, runAction, actionLog, logAt, h]
  | gregister arg g nodene bcon =>
    simp only [actStep, runAction, actionLog, logAt, List.filterMap_nil, List.append_nil]
    split <;> rfl
  | setConfiguration l v =>
    by_cases h : l = le
    · subst h; simp [actStep, runAction, actionLog, logAt]
    · simp [actStep, runAction, actionLog, logAt, h, Function.update_noteq (Ne.symm h)]
  | promote l =>
    simp only [actStep, runAction, actionLog]
    by_cases h : l = le
    · subst h
      by_cases hc : st.1.configuration l &&& 239 = 0
      · cases hw : st.1.withFaces <;> simp [hc, hw, promoRegs, logAt, nCface, nCenter]
      · simp [hc, logAt]
    · split_ifs <;> simp_all [logAt, nCface]
  | setFaceBit l f =>
    by_cases h : l = le
    · subst h; simp [actStep, runAction, actionLog, logAt]
    · simp [actStep, runAction, actionLog, logAt, h, Function.update_noteq (Ne.symm h)]
  | orFaceCode l v => simp [actStep, runAction, actionLog, logAt]

/-- **A sequence of statements, projected.**
Source: none: infrastructure
Kind: L -/
lemma actionsLog_project (le : Nat) :
    ∀ (acts : List TAction) (st : TnodesMeta × (Nat → Option Nat)) (R : List Nat),
      acts.foldl (actStep le st.1.withFaces) (st.1.configuration le, R) =
        ((acts.foldl runAction st).1.configuration le, R ++ logAt le (actionsLog st acts))
  | [], st, R => by simp [actionsLog, logAt]
  | a :: as, st, R => by
    have hw : (runAction st a).1.withFaces = st.1.withFaces :=
      congrArg (fun f => f.2.1) (runAction_frame st a)
    rw [List.foldl_cons, List.foldl_cons, runAction_project, ← hw, actionsLog_project le as]
    simp [actionsLog]

/-! ## Roles of an element in an event -/

/-- The part one element plays in one event.
Source: spec §4.1; the side records of `p4est_iterate`
Kind: D -/
inductive Role
  /-- Its volume event. -/
  | volume (vi : VolumeInfo)
  /-- The single side of a boundary face. -/
  | boundary (face : Nat)
  /-- A side of a same-size face. -/
  | conforming (face : Nat)
  /-- The large side of a hanging face. -/
  | large (face : Nat)
  /-- Small quadrant `j` of a hanging face. -/
  | small (face j : Nat)
  /-- A side of a corner event. -/
  | corner (c : Nat)
  deriving DecidableEq, Repr

/-- The midpoint corner a small quadrant `j` of face `f` registers.
Source: `iter_face1` (part_000 l. 645)
Kind: D -/
def midCorner (faceCorners : Nat → Nat → Nat) (f j : Nat) : Nat := faceCorners f (j ^^^ 1)

/-- The effect of one role on the element's configuration and registered positions.
Source: `iter_volume1`, `iter_face1`, `iter_corner1` read for one element
Kind: D -/
def roleStep (fullStyle withFaces : Bool) (faceCorners : Nat → Nat → Nat) (x : Nat × List Nat) :
    Role → Nat × List Nat
  | .volume vi =>
    if fullStyle || vi.level == 0 then
      (32, x.2 ++ nCenter :: if withFaces then nCface else [])
    else
      (if vi.childid == 1 || vi.childid == 2 then 16 else x.1,
        x.2 ++ if withFaces then [nCenter] else [])
  | .boundary f | .conforming f => (x.1, x.2 ++ if withFaces then [nMface.getD f 0] else [])
  | .large f =>
    ((x.1 &&& 207) ||| (1 <<< f),
      x.2 ++ (if x.1 &&& 239 = 0 then promoRegs withFaces else []) ++ nMface.getD f 0 ::
        if withFaces then
          [nSplit.getD f 0, (nHface.getD f []).getD 0 0, (nHface.getD f []).getD 1 0]
        else [])
  | .small f j =>
    (x.1, x.2 ++ nCcorn.getD (midCorner faceCorners f j) 0 ::
      if withFaces then [nMface.getD f 0] else [])
  | .corner c => (x.1, x.2 ++ [nCcorn.getD c 0])

/-- The roles of local element `le` on a same-size side.
Source: none: infrastructure
Kind: D -/
def conformingRoles (le : Nat) (s : FullSide) : List Role :=
  if !s.isGhost && s.quadid == le then [.conforming s.face] else []

/-- The roles of local element `le` on a side of a face with a hanging side.
Source: none: infrastructure
Kind: D -/
def hangingRoles (le : Nat) : FaceSide → List Role
  | .full s => if !s.isGhost && s.quadid == le then [.large s.face] else []
  | .hanging s => [0, 1].flatMap fun j =>
      if !pick s.isGhost j && pick s.quadid j == le then [.small s.face j] else []

/-- The roles of local element `le` in a face event, by the same case split as `iter_face1`.
Source: `iter_face1` (part_000 ll. 553–669)
Kind: D -/
def faceRoles (le : Nat) (fi : FaceInfo) : List Role :=
  match fi.sides with
  | [.full s] => if s.quadid == le then [.boundary s.face] else []
  | [.full s0, .full s1] => conformingRoles le s0 ++ conformingRoles le s1
  | [s0, s1] => hangingRoles le s0 ++ hangingRoles le s1
  | _ => []

/-- The roles of local element `le` in one event; `n` counts the volume events before it.
Source: none: infrastructure
Kind: D -/
def eventRoles (le n : Nat) : Event → List Role
  | .volume vi => if n = le then [.volume vi] else []
  | .face fi => faceRoles le fi
  | .corner sides => sides.flatMap fun cs =>
      if !cs.isGhost && cs.quadid == le then [.corner cs.corner] else []

/-- A volume event counts one element.
Source: `iter_volume1` (part_000 l. 503)
Kind: D -/
def Event.volumeCount : Event → Nat
  | .volume _ => 1
  | _ => 0

/-- The roles of local element `le` in a sequence of events.
Source: none: infrastructure
Kind: D -/
def rolesOf (le : Nat) : Nat → List Event → List Role
  | _, [] => []
  | n, ev :: evs => eventRoles le n ev ++ rolesOf le (n + ev.volumeCount) evs

/-! ## The statements of an event project to the roles of the element -/

section project

variable (le : Nat) (fullStyle withFaces : Bool) (fc : Nat → Nat → Nat)

lemma conformingSide_project (s : FullSide) (x : Nat × List Nat) :
    (conformingSideActions s).foldl (actStep le true) x =
      (conformingRoles le s).foldl (roleStep fullStyle true fc) x := by
  unfold conformingSideActions conformingRoles
  by_cases hq : s.quadid = le <;> cases hg : s.isGhost <;> simp [actStep, roleStep, hq, hg]

lemma largeSide_project (swapi : Nat) (s : FullSide) (x : Nat × List Nat) :
    (largeSideActions withFaces swapi s).foldl (actStep le withFaces) x =
      (hangingRoles le (.full s)).foldl (roleStep fullStyle withFaces fc) x := by
  unfold largeSideActions hangingRoles
  by_cases hq : s.quadid = le <;> cases hg : s.isGhost <;>
    by_cases hc : x.1 &&& 239 = 0 <;> cases withFaces <;> simp [actStep, roleStep, hq, hc, hg]

lemma smallQuad_project (swapi : Nat) (s : HangingSide) (j : Nat) (x : Nat × List Nat) :
    (smallQuadActions fc withFaces swapi s j).foldl (actStep le withFaces) x =
      (if !pick s.isGhost j && pick s.quadid j == le then [Role.small s.face j] else []).foldl
        (roleStep fullStyle withFaces fc) x := by
  unfold smallQuadActions
  by_cases hq : pick s.quadid j = le <;> cases hg : pick s.isGhost j <;> cases withFaces <;>
    simp [actStep, roleStep, midCorner, hq, hg]

lemma hangingSide_project (o i : Nat) (fs : FaceSide) (x : Nat × List Nat) :
    (hangingFaceSideActions fc withFaces o i fs).foldl (actStep le withFaces) x =
      (hangingRoles le fs).foldl (roleStep fullStyle withFaces fc) x := by
  cases fs with
  | full s => exact largeSide_project le fullStyle withFaces fc _ s x
  | hanging s =>
    simp only [hangingFaceSideActions, hangingRoles, List.flatMap_cons, List.flatMap_nil,
      List.append_nil, List.foldl_append]
    rw [smallQuad_project le fullStyle withFaces fc, smallQuad_project le fullStyle withFaces fc]

lemma volume_project (n : Nat) (vi : VolumeInfo) (x : Nat × List Nat) :
    (iterVolume1Actions fullStyle withFaces n vi).foldl (actStep le withFaces) x =
      (if n = le then [Role.volume vi] else []).foldl (roleStep fullStyle withFaces fc) x := by
  unfold iterVolume1Actions
  by_cases hn : n = le
  · subst hn
    by_cases hf : (fullStyle || vi.level == 0) = true
    · cases withFaces <;> simp [hf, actStep, roleStep, nCface]
    · cases withFaces <;> by_cases hc : (vi.childid == 1 || vi.childid == 2) = true <;>
        simp_all [actStep, roleStep]
  · split_ifs <;> cases withFaces <;> simp [hn, actStep, nCface]

lemma corner_project (sides : List CornerSide) (x : Nat × List Nat) :
    (iterCorner1Actions sides).foldl (actStep le withFaces) x =
      (sides.flatMap fun cs => if !cs.isGhost && cs.quadid == le then [Role.corner cs.corner]
        else []).foldl (roleStep fullStyle withFaces fc) x := by
  induction sides generalizing x with
  | nil => rfl
  | cons cs sides ih =>
    simp only [iterCorner1Actions, List.map_cons, List.foldl_cons, List.flatMap_cons,
      List.foldl_append] at ih ⊢
    rw [ih]
    congr 1
    by_cases hq : cs.quadid = le <;> cases hg : cs.isGhost <;> simp [actStep, roleStep, hq, hg]

end project

/-- **One event, projected.** The statements of an event act on element `le` as its roles in
the event do.
Source: `iter_volume1`, `iter_face1`, `iter_corner1`
Kind: L -/
lemma eventActions_project (le : Nat) (fc : Nat → Nat → Nat) (me : TnodesMeta) (ev : Event)
    (x : Nat × List Nat) :
    (eventActions fc me ev).foldl (actStep le me.withFaces) x =
      (eventRoles le me.lenum ev).foldl (roleStep me.fullStyle me.withFaces fc) x := by
  cases ev with
  | volume vi => exact volume_project le _ _ fc _ vi x
  | corner sides => exact corner_project le _ _ fc sides x
  | face fi =>
    obtain ⟨o, sides⟩ := fi
    simp only [eventActions, eventRoles, iterFace1Actions, faceRoles]
    match sides with
    | [] => rfl
    | [.full s] => cases hw : me.withFaces <;> by_cases hq : s.quadid = le <;>
        simp [actStep, roleStep, hq]
    | [.hanging s] => rfl
    | [.full s0, .full s1] =>
      cases hw : me.withFaces
      · simp only [Bool.false_eq_true, if_false, List.foldl_nil, List.foldl_append]
        have h : ∀ (s : FullSide) (y : Nat × List Nat),
            (conformingRoles le s).foldl (roleStep me.fullStyle false fc) y = y := by
          intro s y
          unfold conformingRoles
          split <;> simp [roleStep]
        rw [h, h]
      · simp only [if_true, List.foldl_append]
        rw [conformingSide_project le me.fullStyle fc, conformingSide_project le me.fullStyle fc]
    | [.full s0, .hanging s1] | [.hanging s0, .full s1] | [.hanging s0, .hanging s1] =>
      simp only [List.foldl_append]
      rw [hangingSide_project, hangingSide_project]
    | _ :: _ :: _ :: _ => simp

lemma iterEvent_frame (fc : Nat → Nat → Nat) (me : TnodesMeta) (ev : Event) :
    (iterEvent fc me ev).fullStyle = me.fullStyle ∧ (iterEvent fc me ev).withFaces = me.withFaces ∧
      (iterEvent fc me ev).lenum = me.lenum + ev.volumeCount := by
  have hf := runActions_foldl_frame (eventStart me ev, fun _ => none) (eventActions fc me ev)
  rw [iterEvent_eq]
  simp only [runActions, TnodesMeta.frame, Prod.mk.injEq] at hf ⊢
  rw [hf.1, hf.2.1, hf.2.2.2.2]
  cases ev <;> exact ⟨rfl, rfl, rfl⟩

/-- **The traversal, projected.** Over a whole traversal, element `le`'s configuration and the
positions the code registers at `le` are those of the fold of `roleStep` over `le`'s roles.
Source: none: infrastructure
Kind: L -/
lemma traverse_project (fc : Nat → Nat → Nat) (le : Nat) :
    ∀ (evs : List Event) (me : TnodesMeta) (R : List Nat),
      (rolesOf le me.lenum evs).foldl (roleStep me.fullStyle me.withFaces fc)
          (me.configuration le, R) =
        ((traverse fc me evs).configuration le, R ++ logAt le (traverseLog fc me evs))
  | [], me, R => by simp [rolesOf, traverse, traverseLog, logAt]
  | ev :: evs, me, R => by
    obtain ⟨hfs, hwf, hlen⟩ := iterEvent_frame fc me ev
    have hstart : (eventStart me ev).withFaces = me.withFaces ∧
        (eventStart me ev).configuration = me.configuration := by cases ev <;> exact ⟨rfl, rfl⟩
    have hev := actionsLog_project le (eventActions fc me ev) (eventStart me ev, fun _ => none) R
    rw [hstart.1, hstart.2, eventActions_project] at hev
    rw [rolesOf, List.foldl_append, hev, ← hlen, ← hfs, ← hwf]
    have := traverse_project fc le evs (iterEvent fc me ev)
      (R ++ logAt le (actionsLog (eventStart me ev, fun _ => none) (eventActions fc me ev)))
    rw [iterEvent_eq] at this ⊢
    simp only [runActions] at this ⊢
    rw [this]
    simp [traverse, traverseLog, iterEvent_eq, runActions]

/-! ## The roles under the iterator contract -/

/-- The corner a role registers.
Source: none: abstract model
Kind: D -/
def Role.cornerOf (fc : Nat → Nat → Nat) : Role → Option Nat
  | .corner c => some c
  | .small f j => some (midCorner fc f j)
  | _ => none

/-- The face a role stands on, and whether the element is the large side there.
Source: none: abstract model
Kind: D -/
def Role.faceOf : Role → Option (Nat × Bool)
  | .boundary f | .conforming f | .small f _ => some (f, false)
  | .large f => some (f, true)
  | _ => none

/-- The volume data of a volume role.
Source: none: abstract model
Kind: D -/
def Role.volumeOf : Role → Option VolumeInfo
  | .volume vi => some vi
  | _ => none

/-- The face of a large-side role.
Source: none: abstract model
Kind: D -/
def Role.largeOf : Role → Option Nat
  | .large f => some f
  | _ => none

/-- The iterator contract, read on the roles of one element: a single volume event, which
precedes every face event of the element (corner events may come anywhere); every face in
exactly one face event; every corner either in exactly one corner event or the midpoint of
exactly one hanging face on which the element is a small side (the iterator reports no corner
event for a hanging corner).
Source: spec §6, the topology iterator of "Inputs"
Kind: D -/
structure ElementContract (fc : Nat → Nat → Nat) (R : List Role) : Prop where
  /-- One volume role, before every face role. -/
  volume_first : ∃ vi pre post, R = pre ++ Role.volume vi :: post ∧
    (∀ r ∈ pre, r.faceOf = none ∧ r.volumeOf = none) ∧ ∀ r ∈ post, r.volumeOf = none
  /-- Every face exactly once. -/
  faces : ((R.filterMap Role.faceOf).map Prod.fst).Perm [0, 1, 2, 3]
  /-- Every corner exactly once, by a corner event or as a hanging midpoint. -/
  corners : (R.filterMap (Role.cornerOf fc)).Perm [0, 1, 2, 3]

/-- The positions a face role registers besides a hanging corner.
Source: `iter_face1` (part_000 ll. 563–566, 577–590, 621–627, 649–651)
Kind: D -/
def facePos (withFaces : Bool) : Nat × Bool → List Nat
  | (f, false) => if withFaces then [nMface.getD f 0] else []
  | (f, true) => nMface.getD f 0 :: if withFaces then
      [nSplit.getD f 0, (nHface.getD f []).getD 0 0, (nHface.getD f []).getD 1 0] else []

/-- The positions a volume role registers.
Source: `iter_volume1` (part_000 ll. 513–529)
Kind: D -/
def volPos (full withFaces : Bool) : List Nat :=
  if full then nCenter :: if withFaces then nCface else [] else if withFaces then [nCenter] else []

/-- The positions a role registers, apart from a promotion.
Source: none: abstract model
Kind: D -/
def roleContrib (fullStyle withFaces : Bool) (fc : Nat → Nat → Nat) (r : Role) : List Nat :=
  (r.cornerOf fc).toList.map (nCcorn.getD · 0) ++ r.faceOf.toList.flatMap (facePos withFaces) ++
    r.volumeOf.toList.flatMap fun vi => volPos (fullStyle || vi.level == 0) withFaces

/-- The configuration after a role.
Source: none: abstract model
Kind: D -/
def roleCfg (fullStyle : Bool) (c : Nat) : Role → Nat
  | .volume vi => if fullStyle || vi.level == 0 then 32
      else if vi.childid == 1 || vi.childid == 2 then 16 else c
  | .large f => (c &&& 207) ||| (1 <<< f)
  | _ => c

lemma roleStep_eq (fullStyle withFaces : Bool) (fc : Nat → Nat → Nat) (c : Nat)
    (regs : List Nat) (r : Role) :
    roleStep fullStyle withFaces fc (c, regs) r =
      (roleCfg fullStyle c r, regs ++ (if r.largeOf.isSome ∧ c &&& 239 = 0 then promoRegs withFaces
        else []) ++ roleContrib fullStyle withFaces fc r) := by
  cases r <;> simp [roleStep, roleCfg, roleContrib, Role.cornerOf, Role.faceOf, Role.volumeOf,
    Role.largeOf, facePos, volPos]
  split_ifs <;> simp_all

/-! ## Folding the roles of one element -/

/-- The face-bit mask of a list of faces.
Source: none: abstract model
Kind: D -/
def maskOf (L : List Nat) : Nat := L.foldl (fun m f => m ||| (1 <<< f)) 0

/-- The configuration the volume callback leaves: `32` in the full style or at level 0, `16`
for child `1` or `2`, otherwise the initial `0`.
Source: `iter_volume1` (part_000 ll. 506–512)
Kind: D -/
def volCfg (full child : Bool) : Nat := if full then 32 else if child then 16 else 0

/-- A configuration the fold can be in: a face-bit mask, `16` or `32`.
Source: none: abstract model
Kind: D -/
def CfgOk (c : Nat) : Prop := c < 16 ∨ c = 16 ∨ c = 32

instance : DecidablePred CfgOk := fun c => inferInstanceAs (Decidable (c < 16 ∨ c = 16 ∨ c = 32))

lemma mask_small : ∀ m < 16, m &&& 207 = m ∧
    ∀ f < 4, (m ||| 1 <<< f) < 16 ∧ (m ||| 1 <<< f) &&& 239 ≠ 0 := by decide

lemma testBit_or_shift : ∀ m < 16, ∀ f < 4, ∀ g < 4,
    (m ||| 1 <<< g).testBit f = (m.testBit f || f == g) := by decide

lemma CfgOk.and_207 {c : Nat} (hc : CfgOk c) : c &&& 207 = c % 16 := by
  rcases hc with hc | rfl | rfl
  · rw [Nat.mod_eq_of_lt hc]; exact (mask_small c hc).1
  · decide
  · decide

lemma roleCfg_of_none {fullStyle : Bool} {c : Nat} {r : Role} (hv : r.volumeOf = none)
    (hl : r.largeOf = none) : roleCfg fullStyle c r = c := by
  cases r <;> simp_all [roleCfg, Role.volumeOf, Role.largeOf]

lemma largeOf_eq_some {r : Role} {f : Nat} : r.largeOf = some f ↔ r = .large f := by
  cases r <;> simp [Role.largeOf]

lemma faceOf_eq_large {r : Role} {f : Nat} : r.faceOf = some (f, true) ↔ r = .large f := by
  cases r <;> simp [Role.faceOf]

/-- **The roles after the volume event.** Over roles with no volume role, the configuration
collects the bits of the large faces (the first one clears bits 4 and 5), and the registered
positions are the roles' contributions plus one promotion, made by the first large side if the
configuration then has no face bit and no bit 5.
Source: `iter_face1` (part_000 ll. 606–627)
Kind: L -/
lemma rolesFold_noVolume (fullStyle withFaces : Bool) (fc : Nat → Nat → Nat) :
    ∀ (R : List Role) (c : Nat) (regs : List Nat), CfgOk c → (∀ r ∈ R, r.volumeOf = none) →
      (∀ f ∈ R.filterMap Role.largeOf, f < 4) →
      (R.foldl (roleStep fullStyle withFaces fc) (c, regs)).1 =
          (if R.filterMap Role.largeOf = [] then c
            else (R.filterMap Role.largeOf).foldl (fun m f => m ||| (1 <<< f)) (c % 16)) ∧
        (R.foldl (roleStep fullStyle withFaces fc) (c, regs)).2.Perm
          (regs ++ R.flatMap (roleContrib fullStyle withFaces fc) ++
            if c &&& 239 = 0 ∧ R.filterMap Role.largeOf ≠ [] then promoRegs withFaces else [])
  | [], c, regs, _, _, _ => by simp
  | r :: R, c, regs, hc, hv, hL => by
    have hvR : ∀ r ∈ R, r.volumeOf = none := fun r' h => hv r' (List.mem_cons_of_mem _ h)
    rw [List.foldl_cons, roleStep_eq]
    cases hr : r.largeOf with
    | none =>
      have hLr : (r :: R).filterMap Role.largeOf = R.filterMap Role.largeOf := by simp [hr]
      obtain ⟨h1, h2⟩ := rolesFold_noVolume fullStyle withFaces fc R c
        (regs ++ [] ++ roleContrib fullStyle withFaces fc r) hc hvR (hLr ▸ hL)
      rw [roleCfg_of_none (hv r (List.mem_cons_self _ _)) hr, hLr]
      exact ⟨by simpa using h1, h2.trans (by simp)⟩
    | some f =>
      obtain rfl := largeOf_eq_some.mp hr
      have hf : f < 4 := hL f (by simp [Role.largeOf])
      obtain ⟨hlt, h239⟩ := (mask_small (c % 16) (Nat.mod_lt _ (by omega))).2 f hf
      have hcfg : roleCfg fullStyle c (.large f) = c % 16 ||| 1 <<< f := by
        simp [roleCfg, hc.and_207]
      have hLf : (Role.large f :: R).filterMap Role.largeOf = f :: R.filterMap Role.largeOf := by
        simp [Role.largeOf]
      rw [hcfg, hLf, if_neg (List.cons_ne_nil _ _), List.foldl_cons]
      simp only [Option.isSome_some, true_and, ne_eq, List.cons_ne_nil, not_false_eq_true,
        and_true]
      generalize (if c &&& 239 = 0 then promoRegs withFaces else []) = P
      obtain ⟨h1, h2⟩ := rolesFold_noVolume fullStyle withFaces fc R _
        (regs ++ P ++ roleContrib fullStyle withFaces fc (.large f)) (Or.inl hlt) hvR
        (fun g hg => hL g (by simp [hLf, hg]))
      rw [Nat.mod_eq_of_lt hlt] at h1
      simp only [h239, false_and, if_false, List.append_nil] at h2
      refine ⟨?_, h2.trans ?_⟩
      · rw [h1]
        split <;> rename_i h <;> simp [h]
      · rw [List.perm_iff_count]
        intro a
        simp only [List.flatMap_cons, List.count_append]
        omega

lemma maskOf_foldl : ∀ (L : List Nat) (m : Nat), m < 16 → (∀ f ∈ L, f < 4) →
    L.foldl (fun m f => m ||| (1 <<< f)) m < 16 ∧
      ∀ f < 4, (L.foldl (fun m f => m ||| (1 <<< f)) m).testBit f = (m.testBit f || decide (f ∈ L))
  | [], m, hm, _ => by simp [hm]
  | g :: L, m, hm, hL => by
    have hg := hL g (List.mem_cons_self _ _)
    obtain ⟨h1, h2⟩ := maskOf_foldl L _ ((mask_small m hm).2 g hg).1
      (fun f hf => hL f (List.mem_cons_of_mem _ hf))
    refine ⟨h1, fun f hf => ?_⟩
    rw [List.foldl_cons, h2 f hf, testBit_or_shift m hm f hf g hg]
    by_cases hfg : f = g
    · simp [hfg]
    · rw [beq_false_of_ne hfg, Bool.or_false]; simp [hfg]

/-- The mask of a list of faces is below 16 and has exactly their bits.
Source: none: abstract model
Kind: L -/
lemma maskOf_spec {L : List Nat} (hL : ∀ f ∈ L, f < 4) :
    maskOf L < 16 ∧ ∀ f < 4, (maskOf L).testBit f = decide (f ∈ L) := by
  obtain ⟨h1, h2⟩ := maskOf_foldl L 0 (by omega) hL
  exact ⟨h1, fun f hf => by simpa using h2 f hf⟩

lemma maskOf_eq_zero {L : List Nat} (hL : ∀ f ∈ L, f < 4) : maskOf L = 0 ↔ L = [] := by
  refine ⟨fun h => ?_, fun h => by simp [h, maskOf]⟩
  match L, hL with
  | [], _ => rfl
  | f :: L, hL =>
    have := (maskOf_spec hL).2 f (hL f (List.mem_cons_self _ _))
    simp [h] at this

/-- The contributions of the roles, sorted by kind: the corners, the faces, the volume.
Source: none: abstract model
Kind: L -/
lemma flatMap_roleContrib_perm (fullStyle withFaces : Bool) (fc : Nat → Nat → Nat) :
    ∀ R : List Role, (R.flatMap (roleContrib fullStyle withFaces fc)).Perm
      ((R.filterMap (Role.cornerOf fc)).map (nCcorn.getD · 0) ++
        (R.filterMap Role.faceOf).flatMap (facePos withFaces) ++
        (R.filterMap Role.volumeOf).flatMap fun vi => volPos (fullStyle || vi.level == 0) withFaces)
  | [] => by simp
  | r :: R => by
    have ih := List.perm_iff_count.mp (flatMap_roleContrib_perm fullStyle withFaces fc R)
    rw [List.perm_iff_count]
    intro a
    have := ih a
    cases r <;> simp only [roleContrib, Role.cornerOf, Role.faceOf, Role.volumeOf,
      List.flatMap_cons, List.filterMap_cons, Option.toList, List.map_cons, List.map_nil,
      List.flatMap_nil, List.count_append, List.count_cons, List.count_nil] at this ⊢ <;> omega

/-- Face roles whose faces are `0, 1, 2, 3` once each are, up to order, the four faces with
their large-side flags.
Source: none: abstract model
Kind: L -/
lemma faces_perm {F : List (Nat × Bool)} (hF : (F.map Prod.fst).Perm [0, 1, 2, 3]) (b : Nat → Bool)
    (hb : ∀ f < 4, b f = true ↔ (f, true) ∈ F) : F.Perm ([0, 1, 2, 3].map fun f => (f, b f)) := by
  have hnd : (F.map Prod.fst).Nodup := hF.nodup_iff.mpr (by decide)
  have hflag : ∀ f c, (f, c) ∈ F → f < 4 ∧ c = b f := by
    intro f c hfc
    have hf : f < 4 := by
      have := hF.subset (List.mem_map_of_mem Prod.fst hfc)
      simp only [List.mem_cons, List.mem_singleton, List.not_mem_nil, or_false] at this
      omega
    refine ⟨hf, ?_⟩
    cases c
    · cases hbf : b f
      · rfl
      · have := List.inj_on_of_nodup_map hnd hfc ((hb f hf).mp hbf) rfl
        simp at this
    · exact ((hb f hf).mpr hfc).symm
  refine (List.perm_ext_iff_of_nodup (hnd.of_map _) ?_).mpr fun ⟨f, c⟩ => ?_
  · exact List.Nodup.of_map Prod.fst (by simp)
  · simp only [List.mem_map, List.mem_cons, List.mem_singleton, List.not_mem_nil, or_false,
      Prod.mk.injEq]
    constructor
    · intro hfc
      obtain ⟨hf, rfl⟩ := hflag f c hfc
      exact ⟨f, by omega, rfl, rfl⟩
    · rintro ⟨f, hf, rfl, rfl⟩
      have hf4 : f < 4 := by omega
      obtain ⟨c, hfc⟩ : ∃ c, (f, c) ∈ F := by
        obtain ⟨⟨g, c⟩, hgc, rfl⟩ := List.mem_map.mp (hF.symm.subset (show f ∈ [0, 1, 2, 3] by simp; omega))
        exact ⟨c, hgc⟩
      obtain ⟨-, rfl⟩ := hflag f c hfc
      exact hfc

/-! ## The table check -/

/-- The configuration an element ends with: the mask of its large faces, or the volume
callback's code if it has none.
Source: none: abstract model
Kind: D -/
def canonCfg (full child : Bool) (m : Nat) : Nat := if m = 0 then volCfg full child else m

/-- The positions an element registers, up to order: its corners, its four faces with their
large-side flags (bits of `m`), its volume positions and the promotion of a large element whose
volume code has no bit 5.
Source: none: abstract model
Kind: D -/
def canonRegs (full child withFaces : Bool) (m : Nat) : List Nat :=
  [0, 1, 2, 3].map (nCcorn.getD · 0) ++
    ([0, 1, 2, 3].map fun f => (f, m.testBit f)).flatMap (facePos withFaces) ++
    volPos full withFaces ++ if volCfg full child &&& 239 = 0 ∧ m ≠ 0 then promoRegs withFaces else []

/-- **The 18 table rows agree with the registrations**, for both styles, with and without face
nodes, for every volume code and every set of large faces: no position twice, the positions
are those of the row of the final configuration, the code is in `{0..16, 32}` and its bits
`0..3` are the large faces.
Source: `p4est_tnodes_config_count/corners/faces` (part_000 ll. 41–98)
Kind: L -/
lemma canonRegs_table : ∀ full child withFaces : Bool, ∀ m < 16,
    (canonRegs full child withFaces m).Nodup ∧
    ((canonRegs full child withFaces m).map fun p : Nat => (p : Int)).Perm
      (configPositions withFaces (configIndex (canonCfg full child m))) ∧
    (canonCfg full child m ≤ 16 ∨ canonCfg full child m = 32) ∧
    ∀ f < 4, (canonCfg full child m).testBit f = m.testBit f := by decide

lemma largeOf_of_faceOf {r : Role} (h : r.faceOf = none) : r.largeOf = none := by
  cases r <;> simp_all [Role.faceOf, Role.largeOf]

lemma volCfg_ok (full child : Bool) : CfgOk (volCfg full child) ∧ volCfg full child % 16 = 0 := by
  cases full <;> cases child <;> decide

/-- **One element under the contract.** The fold of `roleStep` over the roles of an element
that follow the iterator contract ends in `canonCfg` and has registered a permutation of
`canonRegs`, where the mask `m` has exactly the bits of the large faces.
Source: `iter_volume1`, `iter_face1`, `iter_corner1`
Kind: L -/
lemma rolesRun_spec (fullStyle withFaces : Bool) (fc : Nat → Nat → Nat) {R : List Role}
    (hc : ElementContract fc R) :
    ∃ full child m, m < 16 ∧ (∀ f < 4, m.testBit f = true ↔ Role.large f ∈ R) ∧
      (R.foldl (roleStep fullStyle withFaces fc) (0, [])).1 = canonCfg full child m ∧
      (R.foldl (roleStep fullStyle withFaces fc) (0, [])).2.Perm
        (canonRegs full child withFaces m) := by
  obtain ⟨vi, pre, post, hR, hpre, hpost⟩ := hc.volume_first
  have hlarge : ∀ f, f ∈ R.filterMap Role.largeOf ↔ Role.large f ∈ R := fun f => by
    simp [List.mem_filterMap, largeOf_eq_some]
  have hface : ∀ f, (f, true) ∈ R.filterMap Role.faceOf ↔ Role.large f ∈ R := fun f => by
    simp [List.mem_filterMap, faceOf_eq_large]
  have hL4 : ∀ f ∈ R.filterMap Role.largeOf, f < 4 := fun f hf => by
    have := hc.faces.subset (List.mem_map_of_mem Prod.fst ((hface f).mpr ((hlarge f).mp hf)))
    simp only [List.mem_cons, List.mem_singleton, List.not_mem_nil, or_false] at this
    omega
  have hpreL : pre.filterMap Role.largeOf = [] :=
    List.filterMap_eq_nil_iff.mpr fun r hr => largeOf_of_faceOf (hpre r hr).1
  have hLpost : R.filterMap Role.largeOf = post.filterMap Role.largeOf := by
    simp [hR, List.filterMap_append, hpreL, Role.largeOf]
  obtain ⟨hm16, hmbits⟩ := maskOf_spec hL4
  set m := maskOf (R.filterMap Role.largeOf)
  set full := fullStyle || vi.level == 0
  set child := vi.childid == 1 || vi.childid == 2
  refine ⟨full, child, m, hm16, fun f hf => by rw [hmbits f hf, decide_eq_true_iff, hlarge], ?_⟩
  -- the roles before the volume event are corners
  obtain ⟨h1, h2⟩ := rolesFold_noVolume fullStyle withFaces fc pre 0 [] (Or.inl (by omega))
    (fun r hr => (hpre r hr).2) (by simp [hpreL])
  simp only [hpreL, if_true, List.nil_append, List.append_nil, ne_eq, not_true_eq_false,
    and_false, if_false] at h1 h2
  rw [hR, List.foldl_append, List.foldl_cons]
  generalize pre.foldl (roleStep fullStyle withFaces fc) (0, []) = X at h1 h2 ⊢
  obtain ⟨c0, X⟩ := X
  obtain rfl : c0 = 0 := h1
  -- the volume event
  have hvol : roleStep fullStyle withFaces fc (0, X) (.volume vi) =
      (volCfg full child, X ++ volPos full withFaces) := by
    rw [roleStep_eq]
    simp [roleCfg, volCfg, roleContrib, Role.cornerOf, Role.faceOf, Role.volumeOf, Role.largeOf,
      full, child]
  -- the roles after it
  obtain ⟨h3, h4⟩ := rolesFold_noVolume fullStyle withFaces fc post _ (X ++ volPos full withFaces)
    (volCfg_ok full child).1 hpost (hLpost ▸ hL4)
  dsimp only at h2 ⊢
  rw [hvol]
  rw [← hLpost, (volCfg_ok full child).2] at h3
  rw [← hLpost] at h4
  refine ⟨?_, ?_⟩
  · rw [h3, canonCfg]
    by_cases hL : R.filterMap Role.largeOf = []
    · rw [if_pos hL, if_pos ((maskOf_eq_zero hL4).mpr hL)]
    · rw [if_neg hL, if_neg ((maskOf_eq_zero hL4).not.mpr hL)]; rfl
  · have hvp : (R.filterMap Role.volumeOf).flatMap
        (fun vi => volPos (fullStyle || vi.level == 0) withFaces) = volPos full withFaces := by
      simp [hR, List.filterMap_append, Role.volumeOf,
        List.filterMap_eq_nil_iff.mpr fun r hr => (hpre r hr).2,
        List.filterMap_eq_nil_iff.mpr hpost, full]
    have hcp := (hc.corners.map (nCcorn.getD · 0))
    have hfp := (faces_perm hc.faces m.testBit fun f hf => by
      rw [hmbits f hf, decide_eq_true_iff, hlarge, hface]).flatMap_right (facePos withFaces)
    have hall := flatMap_roleContrib_perm fullStyle withFaces fc R
    rw [hvp] at hall
    have hprom : (volCfg full child &&& 239 = 0 ∧ R.filterMap Role.largeOf ≠ []) ↔
        (volCfg full child &&& 239 = 0 ∧ m ≠ 0) := by
      rw [ne_eq, ne_eq, maskOf_eq_zero hL4]
    have hsplit : R.flatMap (roleContrib fullStyle withFaces fc) =
        pre.flatMap (roleContrib fullStyle withFaces fc) ++
          (volPos full withFaces ++ post.flatMap (roleContrib fullStyle withFaces fc)) := by
      simp [hR, roleContrib, Role.cornerOf, Role.faceOf, Role.volumeOf, full]
    rw [if_congr hprom rfl rfl] at h4
    rw [hsplit] at hall
    rw [List.perm_iff_count]
    intro a
    have e4 := h4.count_eq a
    have e2 := h2.count_eq a
    have eall := hall.count_eq a
    have ecp := hcp.count_eq a
    have efp := hfp.count_eq a
    simp only [List.flatMap_cons, List.flatMap_nil, List.count_append, List.append_nil]
      at e4 e2 eall ecp efp
    simp only [canonRegs, List.count_append]
    omega

/-! ## Every registered position is a slot of its element -/

lemma getD_lt (l : List Nat) (n d : Nat) (h : ∀ x ∈ l, x < n) (hd : d < n) (i : Nat) :
    l.getD i d < n := by
  rw [List.getD_eq_getElem?_getD]
  cases hx : l[i]? with
  | none => exact hd
  | some x => exact h x (List.getElem?_mem hx)

lemma nHface_getD_lt (f i : Nat) : (nHface.getD f []).getD i 0 < 25 := by
  refine getD_lt _ 25 0 (fun x hx => ?_) (by omega) i
  rw [List.getD_eq_getElem?_getD] at hx
  cases hl : nHface[f]? with
  | none => simp [hl] at hx
  | some l =>
    rw [hl, Option.getD_some] at hx
    have hall : ∀ l ∈ nHface, ∀ x ∈ l, x < 25 := by decide
    exact hall l (List.getElem?_mem hl) x hx

lemma facePos_lt (withFaces : Bool) (x : Nat × Bool) :
    ∀ p ∈ facePos withFaces x, p < if withFaces then 25 else 9 := by
  obtain ⟨f, b⟩ := x
  have hm := getD_lt nMface 9 0 (by decide) (by omega) f
  have hs := getD_lt nSplit 25 0 (by decide) (by omega) f
  have h0 := nHface_getD_lt f 0
  have h1 := nHface_getD_lt f 1
  cases b <;> cases withFaces <;>
    simp only [facePos, if_true, Bool.false_eq_true, if_false, List.forall_mem_cons,
      List.forall_mem_nil, List.not_mem_nil, false_imp_iff, implies_true, and_true] <;> omega

lemma volPos_lt : ∀ full withFaces : Bool, ∀ p ∈ volPos full withFaces,
    p < if withFaces then 25 else 9 := by decide

lemma promoRegs_lt : ∀ withFaces : Bool, ∀ p ∈ promoRegs withFaces,
    p < if withFaces then 25 else 9 := by decide

/-- Every position a role registers is below `vnodes`.
Source: none: abstract model
Kind: L -/
lemma roleContrib_lt (fullStyle withFaces : Bool) (fc : Nat → Nat → Nat) (r : Role) :
    ∀ p ∈ roleContrib fullStyle withFaces fc r, p < if withFaces then 25 else 9 := by
  intro p hp
  simp only [roleContrib, List.mem_append, List.mem_map, List.mem_flatMap] at hp
  rcases hp with (⟨c, -, rfl⟩ | ⟨x, -, hx⟩) | ⟨vi, -, hx⟩
  · have := getD_lt nCcorn 4 0 (by decide) (by omega) c
    split <;> omega
  · exact facePos_lt withFaces x p hx
  · exact volPos_lt _ withFaces p hx

lemma roleStep_lt (fullStyle withFaces : Bool) (fc : Nat → Nat → Nat) (x : Nat × List Nat)
    (r : Role) (hx : ∀ p ∈ x.2, p < if withFaces then 25 else 9) :
    ∀ p ∈ (roleStep fullStyle withFaces fc x r).2, p < if withFaces then 25 else 9 := by
  obtain ⟨c, regs⟩ := x
  rw [roleStep_eq]
  intro p hp
  simp only [List.mem_append] at hp
  rcases hp with (hp | hp) | hp
  · exact hx p hp
  · split_ifs at hp
    · exact promoRegs_lt withFaces p hp
    · simp at hp
  · exact roleContrib_lt fullStyle withFaces fc r p hp

lemma rolesFold_lt (fullStyle withFaces : Bool) (fc : Nat → Nat → Nat) :
    ∀ (R : List Role) (x : Nat × List Nat), (∀ p ∈ x.2, p < if withFaces then 25 else 9) →
      ∀ p ∈ (R.foldl (roleStep fullStyle withFaces fc) x).2, p < if withFaces then 25 else 9
  | [], _, hx => hx
  | r :: R, x, hx => rolesFold_lt fullStyle withFaces fc R _ (roleStep_lt _ _ _ x r hx)

lemma traverse_withFaces (fc : Nat → Nat → Nat) :
    ∀ (evs : List Event) (me : TnodesMeta), (traverse fc me evs).withFaces = me.withFaces
  | [], _ => rfl
  | ev :: evs, me => (traverse_withFaces fc evs (iterEvent fc me ev)).trans
      (iterEvent_frame fc me ev).2.1

/-- Every local registration of a traversal targets a position below `vnodes`.
Source: none: abstract model
Kind: L -/
lemma traverseLog_lt (fc : Nat → Nat → Nat) (evs : List Event) (me : TnodesMeta) :
    ∀ x ∈ traverseLog fc me evs, x.2 < me.vnodes := by
  intro x hx
  have hp := congrArg Prod.snd (traverse_project fc x.1 evs me [])
  simp only [List.nil_append] at hp
  have hmem : x.2 ∈ logAt x.1 (traverseLog fc me evs) :=
    List.mem_filterMap.mpr ⟨x, hx, by simp⟩
  rw [← hp] at hmem
  exact rolesFold_lt _ _ fc _ _ (fun p hp => by simp at hp) x.2 hmem

lemma slot_eq_iff {a b i j n : Nat} (hi : i < n) (hj : j < n) :
    a * n + i = b * n + j ↔ a = b ∧ i = j := by
  refine ⟨fun h => ?_, fun ⟨h1, h2⟩ => h1 ▸ h2 ▸ rfl⟩
  have hn : 0 < n := by omega
  have hdiv := congrArg (· / n) h
  have hmod := congrArg (· % n) h
  simp only [Nat.mul_comm a n, Nat.mul_comm b n, Nat.mul_add_div hn, Nat.mul_add_mod,
    Nat.div_eq_of_lt hi, Nat.div_eq_of_lt hj, Nat.mod_eq_of_lt hi, Nat.mod_eq_of_lt hj,
    Nat.add_zero] at hdiv hmod
  exact ⟨hdiv, hmod⟩

/-! ## The element after the traversal -/

/-- **An element after the traversal.** From the start of `p4est_tnodes_new`, for every style,
and every sequence of events in which element `le` plays roles that follow the iterator
contract: (i) no slot of `le` is registered twice; (ii) the populated slots of `le` are exactly
the positions of the table row of its final configuration (code `32` reads row `17`); (iii) the
configuration is in `{0..16, 32}` and its bits `0..3` are the faces on which `le` is the large
side.
Source: `iter_volume1`, `iter_face1`, `iter_corner1`, `p4est_tnodes_config_*`
Kind: P -/
theorem traverse_element_table (fc : Nat → Nat → Nat) (fullStyle withFaces : Bool)
    (mpisize mpirank : Nat) (ghost : Option (List (Nat × Nat))) (lel : Nat) (evs : List Event)
    (le : Nat) (hg : GhostRemote (TnodesMeta.init fullStyle withFaces mpisize mpirank ghost lel))
    (hc : ElementContract fc (rolesOf le 0 evs)) :
    let me := TnodesMeta.init fullStyle withFaces mpisize mpirank ghost lel
    let out := traverse fc me evs
    (logAt le (traverseLog fc me evs)).Nodup ∧
    (∀ p < out.vnodes, out.elementNodes (le * out.vnodes + p) ≠ -1 ↔
      (p : Int) ∈ configPositions withFaces (configIndex (out.configuration le))) ∧
    (out.configuration le ≤ 16 ∨ out.configuration le = 32) ∧
    ∀ f < 4, (out.configuration le).testBit f = true ↔ Role.large f ∈ rolesOf le 0 evs := by
  intro me out
  have hp : (rolesOf le 0 evs).foldl (roleStep fullStyle withFaces fc) (0, []) =
      (out.configuration le, logAt le (traverseLog fc me evs)) := traverse_project fc le evs me []
  obtain ⟨full, child, m, hm, hbits, hcfg, hregs⟩ := rolesRun_spec fullStyle withFaces fc hc
  rw [hp] at hcfg hregs
  dsimp only at hcfg hregs
  obtain ⟨tnd, tperm, trange, tbits⟩ := canonRegs_table full child withFaces m hm
  have hvn : out.vnodes = me.vnodes := by
    simp only [TnodesMeta.vnodes, out, traverse_withFaces]
  refine ⟨hregs.nodup_iff.mpr tnd, fun p hpv => ?_, hcfg ▸ trange,
    fun f hf => by rw [hcfg, tbits f hf, hbits f hf]⟩
  rw [hvn] at hpv ⊢
  rw [traverse_elementNodes_ne fc _ evs me hg, hcfg, ← tperm.mem_iff]
  have hlt := traverseLog_lt fc evs me
  simp only [me, TnodesMeta.init, ne_eq, not_true_eq_false, false_or, List.mem_map,
    Int.ofNat_inj, exists_eq_right, ← hregs.mem_iff, logAt, List.mem_filterMap,
    Option.ite_none_right_eq_some, Option.some.injEq]
  constructor
  · rintro ⟨x, hx, hxs⟩
    obtain ⟨rfl, rfl⟩ := (slot_eq_iff (hlt x hx) hpv).mp hxs
    exact ⟨x, hx, rfl, rfl⟩
  · rintro ⟨x, hx, rfl, rfl⟩
    exact ⟨x, hx, rfl⟩

/-- A local element of level 1 and child id 0 on rank 0 of 2, large side of a hanging face 1 whose
two small quadrants are ghosts of rank 1, with its three other faces on the boundary.
Source: none: witness data
Kind: D -/
def largeFaceEvents : List Event :=
  [.volume ⟨1, 0⟩, .face ⟨0, [.full ⟨0, false, 0⟩]⟩,
   .face ⟨0, [.full ⟨1, false, 0⟩, .hanging ⟨0, (true, true), (0, 1), (0, 2)⟩]⟩,
   .face ⟨0, [.full ⟨2, false, 0⟩]⟩, .face ⟨0, [.full ⟨3, false, 0⟩]⟩,
   .corner [⟨0, false, 0⟩], .corner [⟨1, false, 0⟩, ⟨2, true, 0⟩],
   .corner [⟨2, false, 0⟩], .corner [⟨3, false, 0⟩, ⟨0, true, 1⟩]]

theorem traverse_element_table_largeFace :
    GhostRemote (TnodesMeta.init false true 2 0 (some [(1, 0), (1, 1)]) 1) ∧
    ElementContract p4estFaceCorners (rolesOf 0 0 largeFaceEvents) ∧
    (logAt 0 (traverseLog p4estFaceCorners
      (TnodesMeta.init false true 2 0 (some [(1, 0), (1, 1)]) 1) largeFaceEvents)).Nodup ∧
    (∀ p < (traverse p4estFaceCorners (TnodesMeta.init false true 2 0 (some [(1, 0), (1, 1)]) 1)
        largeFaceEvents).vnodes,
      (traverse p4estFaceCorners (TnodesMeta.init false true 2 0 (some [(1, 0), (1, 1)]) 1)
        largeFaceEvents).elementNodes
          (0 * (traverse p4estFaceCorners (TnodesMeta.init false true 2 0 (some [(1, 0), (1, 1)]) 1)
            largeFaceEvents).vnodes + p) ≠ -1 ↔
        (p : Int) ∈ configPositions true (configIndex ((traverse p4estFaceCorners
          (TnodesMeta.init false true 2 0 (some [(1, 0), (1, 1)]) 1) largeFaceEvents).configuration 0))) ∧
    ((traverse p4estFaceCorners (TnodesMeta.init false true 2 0 (some [(1, 0), (1, 1)]) 1)
        largeFaceEvents).configuration 0 ≤ 16 ∨
      (traverse p4estFaceCorners (TnodesMeta.init false true 2 0 (some [(1, 0), (1, 1)]) 1)
        largeFaceEvents).configuration 0 = 32) ∧
    ∀ f < 4, ((traverse p4estFaceCorners (TnodesMeta.init false true 2 0 (some [(1, 0), (1, 1)]) 1)
        largeFaceEvents).configuration 0).testBit f = true ↔
      Role.large f ∈ rolesOf 0 0 largeFaceEvents := by
  have hg : GhostRemote (TnodesMeta.init false true 2 0 (some [(1, 0), (1, 1)]) 1) := by
    rintro gl ⟨⟩
    decide
  have hc : ElementContract p4estFaceCorners (rolesOf 0 0 largeFaceEvents) :=
    ⟨⟨⟨1, 0⟩, [], _, rfl, by simp, by decide⟩, by decide, by decide⟩
  exact ⟨hg, hc, traverse_element_table p4estFaceCorners false true 2 0 _ 1 largeFaceEvents 0 hg hc⟩

end P4estTnodes
