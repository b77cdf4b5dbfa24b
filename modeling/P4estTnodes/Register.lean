import P4estTnodes.Basic

/-!
# Registering a node position: `node_register` and its contributor invariant

`nodeRegister` is `node_register`: it creates a candidate or reuses one, records the slot in
`element_nodes` when the contributor is local, and merges the contribution into the candidate's
contributor list (`contrRegister`): a rank already present keeps its lexicographically smallest
`(le, nodene)`; a new rank is pushed, and the owner index is either moved to the pushed entry or
recomputed by the rescan over indices `1 .. siz-2` (`rescanOwner`).

* **Abstract model.** A candidate stands for the list `h` of registrations it received. Its
  contributor list is right for `h` (`CnodeInv`) when the ranks are pairwise distinct, are exactly
  the ranks of `h`, each keeps the least slot `h` gives it (`IsMinSlot`), and the owner index
  designates the entry of minimal rank.
* **Step** (`contrRegister_inv`): one registration keeps `CnodeInv` for `h ++ [reg]`, on both
  branches of the push, the rescan included (`rescanOwner_spec`).
* **Run** (`nodeRegister_run`): for every sequence of calls with valid candidate indices, from the
  empty table, every candidate satisfies `CnodeInv` for the registrations the trace assigns it,
  and every slot of `element_nodes` holds the candidate of the last local registration there.
-/

namespace P4estTnodes

/-! ## The code -/

/-- The code's lexicographic test: is `(le, nodene)` smaller than the slot kept in `e`?
Source: `node_register` (part_000 l. 391)
Kind: D
Fidelity: exact -/
def slotLt (le nodene : Nat) (e : Contr) : Bool :=
  le < e.le || (le == e.le && nodene < e.nodene)

/-- One step of the owner rescan: keep `o` unless entry `zz` has a smaller rank.
Source: `node_register` (part_000 ll. 416–419)
Kind: D
Fidelity: exact -/
def rescanStep (cs : List Contr) (o zz : Nat) : Nat :=
  if (cs.getD zz default).rank < (cs.getD o default).rank then zz else o

/-- The owner rescan after a push: start at entry `0`, visit `1 .. siz-2`.
Source: `node_register` (part_000 ll. 413–420)
Kind: D
Fidelity: exact -/
def rescanOwner (cs : List Contr) : Nat :=
  (List.range' 1 (cs.length - 2)).foldl (rescanStep cs) 0

/-- Merge one contribution `(rank, le, nodene)` into a candidate's contributor list.
Source: `node_register` (part_000 ll. 383–421)
Kind: D
Fidelity: exact -/
def contrRegister (cn : Cnode) (rank le nodene : Nat) : Cnode :=
  match cn.contr.findIdx? (fun e => e.rank == rank) with
  | some z =>
    let e := cn.contr.getD z default
    if slotLt le nodene e then
      { cn with contr := cn.contr.set z { e with nodene := nodene, le := le } }
    else cn
  | none =>
    let cs := cn.contr ++ [⟨nodene, rank, le⟩]
    match cn.owner with
    | none => { cn with contr := cs, owner := some cn.contr.length }
    | some o =>
      if rank ≤ (cn.contr.getD o default).rank then
        { cn with contr := cs, owner := some cn.contr.length }
      else { cn with contr := cs, owner := some (rescanOwner cs) }

/-- A fresh candidate as `node_register` pushes it.
Source: `node_register` (part_000 ll. 359–364)
Kind: D
Fidelity: exact -/
def Cnode.fresh (i : Nat) (bcon : Bcon) : Cnode := ⟨i, bcon, none, []⟩

/-- The table a call works on: with `lni = none` a fresh candidate is pushed first.
Source: `node_register` (part_000 ll. 357–365)
Kind: D
Fidelity: exact -/
def constructFor (me : TnodesMeta) (lni : Option Nat) (bcon : Bcon) : List Cnode :=
  match lni with
  | none => me.construct ++ [Cnode.fresh me.construct.length bcon]
  | some _ => me.construct

/-- Register a node position relative to a local element or a ghost. `lni = none` creates a
candidate (the `NULL` or `-1` of the C call), `rank = none` is the local process (`-1`). The
result carries the candidate index the C code writes back through `lni`.
Source: `node_register` (part_000 ll. 318–423)
Kind: D
Fidelity: exact -/
def nodeRegister (me : TnodesMeta) (lni rank : Option Nat) (le nodene : Nat) (bcon : Bcon) :
    TnodesMeta × Nat :=
  let r := rank.getD me.mpirank
  let i := lni.getD me.construct.length
  ({ me with
      construct := (constructFor me lni bcon).modify (fun cn => contrRegister cn r le nodene) i
      elementNodes := if r = me.mpirank then
        Function.update me.elementNodes (le * me.vnodes + nodene) i else me.elementNodes }, i)

/-! ## Frame lemmas -/

section frame

variable (me : TnodesMeta) (lni rank : Option Nat) (le nodene : Nat) (bcon : Bcon)

@[simp] lemma nodeRegister_configuration :
    (nodeRegister me lni rank le nodene bcon).1.configuration = me.configuration := rfl

@[simp] lemma nodeRegister_faceCode :
    (nodeRegister me lni rank le nodene bcon).1.faceCode = me.faceCode := rfl

@[simp] lemma nodeRegister_lenum :
    (nodeRegister me lni rank le nodene bcon).1.lenum = me.lenum := rfl

@[simp] lemma nodeRegister_fullStyle :
    (nodeRegister me lni rank le nodene bcon).1.fullStyle = me.fullStyle := rfl

@[simp] lemma nodeRegister_withFaces :
    (nodeRegister me lni rank le nodene bcon).1.withFaces = me.withFaces := rfl

@[simp] lemma nodeRegister_vnodes :
    (nodeRegister me lni rank le nodene bcon).1.vnodes = me.vnodes := rfl

@[simp] lemma nodeRegister_mpirank :
    (nodeRegister me lni rank le nodene bcon).1.mpirank = me.mpirank := rfl

@[simp] lemma nodeRegister_ghost :
    (nodeRegister me lni rank le nodene bcon).1.ghost = me.ghost := rfl

/-- The candidate index a call returns.
Source: none: infrastructure
Kind: L -/
@[simp] lemma nodeRegister_snd :
    (nodeRegister me lni rank le nodene bcon).2 = lni.getD me.construct.length := rfl

/-- A new candidate grows the table by one, an existing one keeps its size.
Source: none: infrastructure
Kind: L -/
lemma nodeRegister_length :
    (nodeRegister me lni rank le nodene bcon).1.construct.length =
      if lni = none then me.construct.length + 1 else me.construct.length := by
  cases lni <;> simp [nodeRegister, constructFor]

/-- The table update of a call: push a fresh candidate if asked, then merge the contribution
into the touched candidate.
Source: `node_register` (part_000 ll. 357–421)
Kind: L -/
lemma nodeRegister_construct :
    (nodeRegister me lni rank le nodene bcon).1.construct =
      (constructFor me lni bcon).modify
        (fun cn => contrRegister cn (rank.getD me.mpirank) le nodene)
        (lni.getD me.construct.length) := rfl

/-- The slot update of `element_nodes`: only a local registration writes, and it writes the
candidate index at its own slot.
Source: `node_register` (part_000 ll. 378–381)
Kind: L -/
lemma nodeRegister_elementNodes :
    (nodeRegister me lni rank le nodene bcon).1.elementNodes =
      if rank.getD me.mpirank = me.mpirank then
        Function.update me.elementNodes (le * me.vnodes + nodene) (lni.getD me.construct.length)
      else me.elementNodes := rfl

end frame

/-! ## The abstract model of a candidate -/

/-- The slots that the registrations `h` give rank `q`, in registration order.
Source: none: abstract model
Kind: D -/
def slotsOf (h : List Contr) (q : Nat) : List (Nat × Nat) :=
  (h.filter (fun e => e.rank == q)).map (fun e => (e.le, e.nodene))

/-- Lexicographic order on `(le, nodene)` slots.
Source: none: abstract model
Kind: D -/
def SlotLe (a b : Nat × Nat) : Prop := a.1 < b.1 ∨ (a.1 = b.1 ∧ a.2 ≤ b.2)

/-- `s` is the least slot the registrations `h` give rank `q`.
Source: none: abstract model
Kind: D -/
def IsMinSlot (h : List Contr) (q : Nat) (s : Nat × Nat) : Prop :=
  s ∈ slotsOf h q ∧ ∀ t ∈ slotsOf h q, SlotLe s t

/-- The contributor list of a candidate is right for the registrations `h` it received.
Source: spec §4.1 "Duplicate suppression", §9 "owner == argmin by rank"; `check_node`
(part_000 ll. 290–311)
Kind: D -/
structure CnodeInv (cn : Cnode) (h : List Contr) : Prop where
  /-- The contributor ranks are pairwise distinct. -/
  nodup : (cn.contr.map (·.rank)).Nodup
  /-- The contributor ranks are the registered ranks. -/
  ranks : ∀ q, q ∈ cn.contr.map (·.rank) ↔ ∃ e ∈ h, e.rank = q
  /-- Every entry keeps the least slot registered with its rank. -/
  minimal : ∀ e ∈ cn.contr, IsMinSlot h e.rank (e.le, e.nodene)
  /-- The owner designates the entry of minimal rank (and is `NULL` only on an empty list). -/
  owner : (cn.owner = none ∧ cn.contr = []) ∨
    ∃ o, cn.owner = some o ∧ o < cn.contr.length ∧
      ∀ e ∈ cn.contr, (cn.contr.getD o default).rank ≤ e.rank

/-- A fresh candidate is right for the empty history.
Source: none: infrastructure
Kind: L -/
lemma cnodeInv_fresh (i : Nat) (bcon : Bcon) : CnodeInv (Cnode.fresh i bcon) [] :=
  ⟨by simp [Cnode.fresh], by simp [Cnode.fresh], by simp [Cnode.fresh],
    .inl ⟨rfl, rfl⟩⟩

/-! ### Slots of a grown history -/

lemma slotsOf_append (h : List Contr) (r : Contr) (q : Nat) :
    slotsOf (h ++ [r]) q = slotsOf h q ++ if r.rank = q then [(r.le, r.nodene)] else [] := by
  by_cases hq : r.rank = q <;> simp [slotsOf, List.filter_append, hq]

lemma slotLt_iff (le nodene : Nat) (e : Contr) :
    slotLt le nodene e = true ↔ ¬ SlotLe (e.le, e.nodene) (le, nodene) := by
  simp only [slotLt, SlotLe, Bool.or_eq_true, decide_eq_true_eq, Bool.and_eq_true, beq_iff_eq]
  omega

/-- A registration of another rank leaves the least slot of `q` alone.
Source: none: infrastructure
Kind: L -/
lemma isMinSlot_append_ne {h : List Contr} {r : Contr} {q : Nat} (hq : r.rank ≠ q)
    (s : Nat × Nat) : IsMinSlot (h ++ [r]) q s ↔ IsMinSlot h q s := by
  simp [IsMinSlot, slotsOf_append, hq]

/-- The first registration of a rank is its least slot.
Source: none: infrastructure
Kind: L -/
lemma isMinSlot_append_new {h : List Contr} {r : Contr} (hq : slotsOf h r.rank = []) :
    IsMinSlot (h ++ [r]) r.rank (r.le, r.nodene) := by
  simp [IsMinSlot, slotsOf_append, hq, SlotLe]

/-- A further registration of a rank keeps the smaller of the two slots, by the code's test.
Source: `node_register` (part_000 ll. 389–394)
Kind: L -/
lemma isMinSlot_append_same {h : List Contr} {r e : Contr}
    (hmin : IsMinSlot h r.rank (e.le, e.nodene)) :
    IsMinSlot (h ++ [r]) r.rank
      (if slotLt r.le r.nodene e then (r.le, r.nodene) else (e.le, e.nodene)) := by
  obtain ⟨hmem, hle⟩ := hmin
  split_ifs with hlt
  · have hrlt := (slotLt_iff r.le r.nodene e).mp hlt
    refine ⟨by simp [slotsOf_append], ?_⟩
    simp only [slotsOf_append, if_pos, List.mem_append, List.mem_singleton]
    rintro t (ht | rfl)
    · have := hle t ht
      simp only [SlotLe] at this hrlt ⊢
      omega
    · right; simp
  · have hrge := (slotLt_iff r.le r.nodene e).not.mp hlt
    refine ⟨by simp [slotsOf_append, hmem], ?_⟩
    simp only [slotsOf_append, if_pos, List.mem_append, List.mem_singleton]
    rintro t (ht | rfl)
    · exact hle t ht
    · simpa using hrge

/-! ### The owner rescan -/

/-- The rescan over `s .. s+n-1` keeps a minimum of the prefix it has seen.
Source: none: infrastructure
Kind: L -/
lemma foldl_rescanStep (cs : List Contr) :
    ∀ (n s o : Nat), o < s → (∀ i < s, (cs.getD o default).rank ≤ (cs.getD i default).rank) →
      let r := (List.range' s n).foldl (rescanStep cs) o
      r < s + n ∧ ∀ i < s + n, (cs.getD r default).rank ≤ (cs.getD i default).rank
  | 0, s, o, ho, hmin => ⟨by simpa using ho, by simpa using hmin⟩
  | n + 1, s, o, ho, hmin => by
    simp only [List.range'_succ, List.foldl_cons]
    have step := foldl_rescanStep cs n (s + 1) (rescanStep cs o s)
    rw [show s + (n + 1) = s + 1 + n by omega]
    apply step
    · unfold rescanStep; split <;> omega
    · intro i hi
      unfold rescanStep
      rcases Nat.lt_succ_iff_lt_or_eq.mp hi with hi | rfl
      · split
        · exact le_trans (by omega) (hmin i hi)
        · exact hmin i hi
      · split <;> omega

/-- After a push of a non-owner rank, the rescan returns an index of minimal rank among the
entries before the pushed one.
Source: `node_register` (part_000 ll. 411–420)
Kind: L -/
lemma rescanOwner_spec (cs : List Contr) (hlen : 2 ≤ cs.length) :
    rescanOwner cs < cs.length - 1 ∧
      ∀ i < cs.length - 1, (cs.getD (rescanOwner cs) default).rank ≤ (cs.getD i default).rank := by
  have := foldl_rescanStep cs (cs.length - 2) 1 0 (by omega) (fun i hi => by
    rw [Nat.lt_one_iff.mp hi])
  rw [show 1 + (cs.length - 2) = cs.length - 1 by omega] at this
  exact this

/-! ### The step -/

/-- Two entries of a list with distinct ranks that share a rank are equal.
Source: none: infrastructure
Kind: L -/
lemma eq_of_rank_eq {l : List Contr} (hnd : (l.map (·.rank)).Nodup) {a b : Contr}
    (ha : a ∈ l) (hb : b ∈ l) (h : a.rank = b.rank) : a = b :=
  List.inj_on_of_nodup_map hnd ha hb h

/-- On a list with distinct ranks, overwriting the entry of a rank with an entry of the same
rank is a map over the list.
Source: none: infrastructure
Kind: L -/
lemma set_eq_map_of_rank {l : List Contr} (hnd : (l.map (·.rank)).Nodup) {z : Nat}
    (hz : z < l.length) (e' : Contr) (he' : e'.rank = l[z].rank) :
    l.set z e' = l.map (fun x => if x.rank = e'.rank then e' else x) := by
  refine List.ext_getElem (by simp) fun j h1 h2 => ?_
  have hjl : j < l.length := by simpa using h2
  rw [List.getElem_set, List.getElem_map]
  by_cases hj : z = j
  · subst hj; simp [he']
  · have hne : l[j].rank ≠ l[z].rank := fun h => hj <| Eq.symm <|
      (@List.Nodup.getElem_inj_iff _ _ hnd j (by simpa using h2) z (by simpa using hz)).mp
        (by simpa using h)
    simp [hj, he', hne]

/-- **Step lemma.** One registration `(rank, le, nodene)` keeps the contributor list right for
the grown history, on every branch of `node_register`: an existing rank keeping its least
slot, a pushed rank that becomes the owner, and a pushed rank after which the owner is
recomputed by the rescan.
Source: `node_register` (part_000 ll. 383–421)
Kind: L -/
lemma contrRegister_inv {cn : Cnode} {h : List Contr} (hinv : CnodeInv cn h)
    (rank le nodene : Nat) :
    CnodeInv (contrRegister cn rank le nodene) (h ++ [⟨nodene, rank, le⟩]) := by
  have hranks : ∀ q, (∃ e ∈ h ++ [⟨nodene, rank, le⟩], e.rank = q) ↔
      (∃ e ∈ h, e.rank = q) ∨ rank = q := by
    intro q; simp [or_and_right, exists_or]
  unfold contrRegister
  split
  · -- the rank is present at `z`
    rename_i z hz
    obtain ⟨hzl, hzr, -⟩ := List.findIdx?_eq_some_iff_getElem.mp hz
    have hzr : cn.contr[z].rank = rank := by simpa using hzr
    have hez : cn.contr.getD z default = cn.contr[z] := List.getD_eq_getElem _ _ hzl
    have hmem : rank ∈ cn.contr.map (·.rank) := List.mem_map.mpr ⟨_, List.getElem_mem hzl, hzr⟩
    have hminz := hinv.minimal _ (List.getElem_mem hzl)
    rw [hzr] at hminz
    have hmin' := @isMinSlot_append_same _ (Contr.mk nodene rank le) _ hminz
    have hother : ∀ x ∈ cn.contr, x.rank ≠ rank →
        IsMinSlot (h ++ [⟨nodene, rank, le⟩]) x.rank (x.le, x.nodene) := fun x hx hne =>
      (isMinSlot_append_ne (Ne.symm hne) _).mpr (hinv.minimal x hx)
    rw [hez]
    dsimp only
    split_ifs with hlt
    · -- the new slot is smaller: overwrite the entry
      have hset := set_eq_map_of_rank hinv.nodup hzl
        { cn.contr[z] with nodene := nodene, le := le } rfl
      have hmap : (cn.contr.set z { cn.contr[z] with nodene := nodene, le := le }).map (·.rank) =
          cn.contr.map (·.rank) := by
        rw [hset, List.map_map]
        refine List.map_congr_left fun x _ => ?_
        by_cases hx : x.rank = cn.contr[z].rank <;> simp [hx]
      refine ⟨by simpa [hmap] using hinv.nodup, fun q => ?_, ?_, ?_⟩
      · rw [hmap, hinv.ranks, hranks]
        constructor
        · exact .inl
        · rintro (hq | rfl)
          · exact hq
          · exact (hinv.ranks _).mp hmem
      · rw [hset]
        simp only [List.mem_map]
        rintro _ ⟨x, hx, rfl⟩
        by_cases hxr : x.rank = cn.contr[z].rank
        · simpa [hxr, hzr, hlt] using hmin'
        · simpa [hxr] using hother x hx (hzr ▸ hxr)
      · rcases hinv.owner with ⟨-, hnil⟩ | ⟨o, ho, hol, homin⟩
        · simp [hnil] at hzl
        · refine .inr ⟨o, ho, by simpa using hol, fun e he => ?_⟩
          rw [hset] at he ⊢
          simp only [List.mem_map] at he
          obtain ⟨x, hx, rfl⟩ := he
          have hxo := homin x hx
          rw [List.getD_eq_getElem _ _ (by simpa using hol), List.getElem_map]
          rw [List.getD_eq_getElem _ _ hol] at hxo
          split_ifs <;> simp_all
    · -- the kept slot is smaller: nothing changes
      refine ⟨hinv.nodup, fun q => ?_, fun x hx => ?_, hinv.owner⟩
      · rw [hinv.ranks, hranks]
        constructor
        · exact .inl
        · rintro (hq | rfl)
          · exact hq
          · exact (hinv.ranks _).mp hmem
      · by_cases hxr : x.rank = rank
        · have := eq_of_rank_eq hinv.nodup hx (List.getElem_mem hzl) (hxr.trans hzr.symm)
          subst this
          simpa [hzr, hlt] using hmin'
        · exact hother x hx hxr
  · -- the rank is new: push it
    rename_i hz
    have hnot : ∀ x ∈ cn.contr, x.rank ≠ rank := by
      intro x hx hxr
      have := List.findIdx?_eq_none_iff.mp hz x hx
      simp [hxr] at this
    have hslots : slotsOf h rank = [] := by
      simp only [slotsOf, List.map_eq_nil_iff, List.filter_eq_nil_iff, beq_iff_eq]
      intro x hx hxr
      obtain ⟨y, hy, hyr⟩ := List.mem_map.mp ((hinv.ranks rank).mpr ⟨x, hx, hxr⟩)
      exact hnot y hy hyr
    have hnodup : ((cn.contr ++ [Contr.mk nodene rank le]).map (·.rank)).Nodup := by
      rw [List.map_append, List.nodup_append]
      refine ⟨hinv.nodup, by simp, ?_⟩
      simp only [List.map_cons, List.map_nil, List.disjoint_singleton]
      simpa using hnot
    have hranks' : ∀ q, q ∈ (cn.contr ++ [Contr.mk nodene rank le]).map (·.rank) ↔
        ∃ e ∈ h ++ [Contr.mk nodene rank le], e.rank = q := by
      intro q
      rw [hranks, ← hinv.ranks]
      simp [eq_comm]
    have hminimal : ∀ x ∈ cn.contr ++ [Contr.mk nodene rank le],
        IsMinSlot (h ++ [Contr.mk nodene rank le]) x.rank (x.le, x.nodene) := by
      intro x hx
      rcases List.mem_append.mp hx with hx | hx
      · exact (isMinSlot_append_ne (Ne.symm (hnot x hx)) _).mpr (hinv.minimal x hx)
      · rw [List.mem_singleton.mp hx]
        exact isMinSlot_append_new hslots
    have hlast : (cn.contr ++ [Contr.mk nodene rank le]).getD cn.contr.length default =
        ⟨nodene, rank, le⟩ := by simp
    split
    · -- an empty list: the pushed entry is the owner
      rename_i hown
      refine ⟨hnodup, hranks', hminimal, .inr ⟨_, rfl, by simp, ?_⟩⟩
      rcases hinv.owner with ⟨-, hnil⟩ | ⟨o, ho, -⟩
      · simp [hnil]
      · simp [hown] at ho
    · rename_i o hown
      rcases hinv.owner with ⟨ho, -⟩ | ⟨o', ho', hol, homin⟩
      · simp [hown] at ho
      · rw [hown, Option.some.injEq] at ho'
        subst ho'
        split_ifs with hle
        · -- the pushed rank is not larger: it becomes the owner
          refine ⟨hnodup, hranks', hminimal, .inr ⟨_, rfl, by simp, fun e he => ?_⟩⟩
          rw [hlast]
          rcases List.mem_append.mp he with he | he
          · exact le_trans hle (homin e he)
          · simp [List.mem_singleton.mp he]
        · -- the pushed rank is larger: the rescan recomputes the owner
          have hlen : 2 ≤ (cn.contr ++ [Contr.mk nodene rank le]).length := by simp; omega
          obtain ⟨hr, hrmin⟩ := rescanOwner_spec _ hlen
          simp only [List.length_append, List.length_singleton, Nat.add_sub_cancel] at hr hrmin
          refine ⟨hnodup, hranks', hminimal, .inr ⟨_, rfl, by simp; omega, fun e he => ?_⟩⟩
          rcases List.mem_append.mp he with he | he
          · obtain ⟨i, hi, rfl⟩ := List.mem_iff_getElem.mp he
            have := hrmin i hi
            rwa [List.getD_append _ _ _ _ hi, List.getD_eq_getElem _ _ hi] at this
          · have := hrmin o hol
            rw [List.getD_append _ _ _ _ hol] at this
            rw [List.mem_singleton.mp he]
            simp only
            omega

/-! ## Runs of calls -/

/-- The table invariant: every candidate is right for its registrations, and no registration
names a candidate beyond the table.
Source: none: abstract model
Kind: D -/
def TableInv (cs : List Cnode) (hist : Nat → List Contr) : Prop :=
  (∀ c < cs.length, CnodeInv (cs.getD c default) (hist c)) ∧ ∀ c, cs.length ≤ c → hist c = []

/-- **Step lemma on the table.** One valid call keeps the table invariant, the history of the
touched candidate growing by the call's contribution.
Source: `node_register` (part_000 ll. 357–423)
Kind: L -/
lemma nodeRegister_tableInv {me : TnodesMeta} {hist : Nat → List Contr}
    (hinv : TableInv me.construct hist) (lni rank : Option Nat) (le nodene : Nat) (bcon : Bcon)
    (hv : ∀ i, lni = some i → i < me.construct.length) :
    TableInv (nodeRegister me lni rank le nodene bcon).1.construct
      (Function.update hist (lni.getD me.construct.length)
        (hist (lni.getD me.construct.length) ++ [⟨nodene, rank.getD me.mpirank, le⟩])) := by
  obtain ⟨hin, hout⟩ := hinv
  rw [nodeRegister_construct]
  have hlen0 : (constructFor me lni bcon).length =
      if lni = none then me.construct.length + 1 else me.construct.length := by
    cases lni <;> simp [constructFor]
  have hi : lni.getD me.construct.length < (constructFor me lni bcon).length := by
    cases lni with
    | none => simp [constructFor]
    | some j => simpa [constructFor] using hv j rfl
  have hinvi : CnodeInv ((constructFor me lni bcon).getD (lni.getD me.construct.length) default)
      (hist (lni.getD me.construct.length)) := by
    cases lni with
    | none => simpa [constructFor, hout _ le_rfl] using cnodeInv_fresh me.construct.length bcon
    | some j => exact hin j (hv j rfl)
  refine ⟨fun c hc => ?_, fun c hc => ?_⟩
  · rw [List.length_modify] at hc
    rw [List.getD_eq_getElem _ _ (by simpa using hc), List.getElem_modify]
    by_cases hci : lni.getD me.construct.length = c
    · subst hci
      simp only [if_true, Function.update_same]
      rw [← List.getD_eq_getElem _ default hc]
      exact contrRegister_inv hinvi _ _ _
    · rw [if_neg hci, Function.update_noteq (Ne.symm hci), ← List.getD_eq_getElem _ default hc]
      have hc' : c < me.construct.length := by
        cases lni <;> simp_all [constructFor]; omega
      have : (constructFor me lni bcon).getD c default = me.construct.getD c default := by
        cases lni <;> simp [constructFor, List.getElem?_append_left hc']
      rw [this]
      exact hin c hc'
  · rw [List.length_modify, hlen0] at hc
    rw [Function.update_noteq (by cases lni <;> simp_all <;> omega)]
    apply hout
    split_ifs at hc <;> omega

end P4estTnodes
