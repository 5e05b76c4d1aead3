import PushRelabel.Network.Uniform
import PushRelabel.Proofs.Network.Growth

/-! # Uniform random networks are regular

Draws below a bound stay below it whatever the state of the generator: a draw that is corrected has
left room for the correction. So each node of a uniform random network gets the number of arcs that
was asked for, and none of them is a loop or leads out of the network.
-/

namespace PushRelabel

namespace Random

variable {α β : Type}

/-- Whatever the state of the generator, what is drawn satisfies a condition. -/
def Always (draw : StateM Random α) (P : α → Prop) : Prop := ∀ r, P (draw.run r).1

theorem always_pure {P : α → Prop} {a : α} (h : P a) : Always (pure a) P := fun _ => h

theorem Always.bind {draw : StateM Random α} {f : α → StateM Random β} {P : α → Prop}
    {Q : β → Prop} (h : Always draw P) (hf : ∀ a, P a → Always (f a) Q) : Always (draw >>= f) Q :=
  fun r => hf _ (h r) _

theorem always_mapM {f : α → StateM Random β} {as : List α} {R : α → β → Prop}
    (h : ∀ a ∈ as, Always (f a) (R a)) : Always (as.mapM f) (List.Forall₂ R as) := by
  induction as with
  | nil => exact always_pure .nil
  | cons a as ih =>
      obtain ⟨ha, has⟩ := List.forall_mem_cons.mp h
      rw [List.mapM_cons]
      exact ha.bind fun b hb => (ih has).bind fun bs hbs => always_pure (.cons hb hbs)

/-! ## Draws below a bound -/

theorem always_half : Always half (· < halfSize) := by
  have hword : Always word fun _ => True := fun _ => trivial
  refine hword.bind fun w _ => always_pure ?_
  rw [UInt64.toNat_shiftRight, Nat.shiftRight_eq_div_pow]
  exact Nat.div_lt_of_lt_mul w.toNat_lt

variable {bound : Nat}

theorem high_lt {drawn : Nat} (hpos : 0 < bound) (hdrawn : drawn < halfSize) :
    drawn * bound / halfSize < bound :=
  Nat.div_lt_of_lt_mul (Nat.mul_lt_mul_of_pos_right hdrawn hpos)

/-- Of a product whose low half asks for a correction, the high half is not the largest one. -/
theorem high_add_one_lt {drawn : Nat} (hdrawn : drawn < halfSize)
    (hlow : halfSize - bound < drawn * bound % halfSize) :
    drawn * bound / halfSize + 1 < bound := by
  have hsplit := Nat.div_add_mod (drawn * bound) halfSize
  have hproduct : (drawn + 1) * bound ≤ halfSize * bound := Nat.mul_le_mul_right bound hdrawn
  have hroom : halfSize * (drawn * bound / halfSize + 1) < halfSize * bound := by
    rw [Nat.mul_add, Nat.mul_one]
    rw [Nat.add_mul, Nat.one_mul] at hproduct
    omega
  exact Nat.lt_of_mul_lt_mul_left hroom

theorem always_below (hpos : 0 < bound) : Always (below bound) (· < bound) := by
  refine always_half.bind fun drawn hdrawn => ?_
  dsimp only
  split
  next hlow =>
    refine always_half.bind fun again _ => ?_
    split
    next => exact always_pure (high_add_one_lt hdrawn hlow)
    next => exact always_pure (high_lt hpos hdrawn)
  next => exact always_pure (high_lt hpos hdrawn)

end Random

namespace Network.Uniform

variable {spec : Uniform} {node : Nat}

/-! ## Tails -/

theorem tails_eq (horder : 2 ≤ spec.order) :
    spec.tails = (List.range spec.order).flatMap (List.replicate spec.outdegree) :=
  if_neg (Nat.not_lt.mpr horder)

theorem lt_of_mem_tails (h : node ∈ spec.tails) : 2 ≤ spec.order ∧ node < spec.order := by
  unfold tails at h
  split at h
  next => cases h
  next horder =>
    obtain ⟨tail, htail, hmem⟩ := List.mem_flatMap.mp h
    obtain rfl := List.eq_of_mem_replicate hmem
    exact ⟨Nat.le_of_not_lt horder, List.mem_range.mp htail⟩

theorem length_tails (horder : 2 ≤ spec.order) :
    spec.tails.length = spec.order * spec.outdegree := by
  rw [tails_eq horder]
  simp

theorem count_flatMap_replicate (count n : Nat) :
    ((List.range n).flatMap (List.replicate count)).count node = if node < n then count else 0 := by
  induction n with
  | zero => rfl
  | succ n ih =>
      rw [List.range_succ, List.flatMap_append, List.count_append, ih, List.flatMap_singleton,
        List.count_replicate]
      simp only [beq_iff_eq]
      split <;> split <;> split <;> omega

theorem count_tails (horder : 2 ≤ spec.order) (hnode : node < spec.order) :
    spec.tails.count node = spec.outdegree := by
  rw [tails_eq horder, count_flatMap_replicate, if_pos hnode]

/-! ## Arcs -/

theorem always_drawHead {order : Nat} (horder : 2 ≤ order) (hnode : node < order) :
    Random.Always (drawHead order node) fun head => head < order ∧ head ≠ node := by
  refine (Random.always_below (by omega)).bind fun drawn hdrawn => Random.always_pure ?_
  split <;> omega

/-- An arc that leaves a node for another one. -/
structure LeadsAway (spec : Uniform) (node : Nat) (arc : Arc Float) : Prop where
  tail_eq : arc.tail = node
  tail_lt : arc.tail < spec.order
  head_lt : arc.head < spec.order
  head_ne : arc.head ≠ node

theorem always_drawArc (horder : 2 ≤ spec.order) (hnode : node < spec.order) :
    Random.Always (spec.drawArc node) (spec.LeadsAway node) := by
  have hcapacity : Random.Always (Random.upTo spec.bound) fun _ => True := fun _ => trivial
  exact (always_drawHead horder hnode).bind fun head hhead => hcapacity.bind fun _ _ =>
    Random.always_pure ⟨rfl, hnode, hhead.1, hhead.2⟩

theorem leadsAway_arcs (spec : Uniform) :
    List.Forall₂ spec.LeadsAway spec.tails spec.arcs := by
  refine Random.always_mapM (fun node hnode => ?_) _
  obtain ⟨horder, hlt⟩ := lt_of_mem_tails hnode
  exact always_drawArc horder hlt

theorem map_tail_arcs (spec : Uniform) : spec.arcs.map Arc.tail = spec.tails := by
  have h : List.Forall₂ (· = ·) spec.tails (spec.arcs.map Arc.tail) :=
    List.forall₂_map_right_iff.mpr (spec.leadsAway_arcs.imp fun _ _ harc => harc.tail_eq.symm)
  rw [List.forall₂_eq_eq_eq] at h
  exact h.symm

theorem leadsAway_of_mem {arc : Arc Float} (h : arc ∈ spec.arcs) :
    spec.LeadsAway arc.tail arc := by
  obtain ⟨tail, -, harc⟩ := (exists_of_forall₂ spec.leadsAway_arcs).2 arc h
  exact harc.tail_eq.symm ▸ harc

theorem arcs_eq_nil (h : spec.order < 2) : spec.arcs = [] := by
  rw [← List.map_eq_nil_iff, map_tail_arcs]
  exact if_pos h

/-- All arcs that are drawn are added. -/
theorem exists_generate (hbound : 0.0 < spec.bound ∧ spec.bound.isFinite)
    (hroom : Room.Holds Room.rowBytes spec.order) :
    ∃ net, spec.generate = .ok net ∧ net.order = spec.order ∧ net.Lists spec.arcs := by
  have hempty : (ofOrder spec.order : Network Float).order = spec.order := order_ofOrder _
  have hends : ∀ arc ∈ spec.arcs,
      max arc.tail arc.head < (ofOrder spec.order : Network Float).order := by
    intro arc harc
    obtain ⟨-, htail, hhead, -⟩ := leadsAway_of_mem harc
    exact hempty.symm ▸ Nat.max_lt.mpr ⟨htail, hhead⟩
  obtain ⟨net, hadds, horder, hlists⟩ := (lists_ofOrder spec.order).foldlM_addArc hends
  refine ⟨net, ?_, horder.trans hempty, hlists⟩
  rw [generate, if_pos hbound, allocate, Room.claim_eq_ok _ hroom]
  exact hadds

/-! ## The network -/

/-- Whatever the seed, a uniform network is there, with as many nodes as were asked for. If there
are at least two, each has as many arcs as were asked for, and all lead to other nodes. -/
theorem generate_regular (spec : Uniform) (hbound : 0.0 < spec.bound ∧ spec.bound.isFinite)
    (horder : spec.order ≤ 2 ^ 32) :
    ∃ net, spec.generate = .ok net ∧ net.order = spec.order ∧
      (spec.order < 2 → net.arcCount = 0 ∧ ∀ node < spec.order, net.successors node = .ok []) ∧
      (2 ≤ spec.order → net.arcCount = spec.order * spec.outdegree ∧
        ∀ node < spec.order, ∃ row, net.successors node = .ok row ∧
          row.length = spec.outdegree ∧ ∀ a ∈ row, a.1 ≠ node ∧ a.1 < spec.order) := by
  have hlargest : Room.Holds Room.rowBytes (2 ^ 32) := by decide
  obtain ⟨net, hnet, hsize, hlists⟩ := exists_generate hbound (hlargest.mono horder)
  have hrow : ∀ node < spec.order, net.successors node = .ok (departing spec.arcs node) :=
    fun node hnode => hlists.successors_eq node (hsize.symm ▸ hnode)
  refine ⟨net, hnet, hsize, fun hfew => ?_, fun hmany => ?_⟩
  · rw [arcs_eq_nil hfew] at hlists hrow
    exact ⟨hlists.arcCount_eq, hrow⟩
  · have hcount : net.arcCount = spec.tails.length := by
      rw [hlists.arcCount_eq, ← map_tail_arcs, List.length_map]
    refine ⟨hcount.trans (length_tails hmany), fun node hnode => ⟨_, hrow node hnode, ?_, ?_⟩⟩
    · rw [length_departing, map_tail_arcs, count_tails hmany hnode]
    · intro a ha
      obtain ⟨arc, harc, rfl, rfl⟩ := mem_departing_iff.mp ha
      obtain ⟨-, -, hhead, hne⟩ := leadsAway_of_mem harc
      exact ⟨hne, hhead⟩

/-- Two arcs from each of three nodes. -/
theorem generate_regular_three : ∃ net, (⟨3, 2, 10.0, 1⟩ : Uniform).generate = .ok net ∧
    net.order = 3 ∧ net.arcCount = 6 ∧ ∀ node < 3, ∃ row, net.successors node = .ok row ∧
      row.length = 2 ∧ ∀ a ∈ row, a.1 ≠ node ∧ a.1 < 3 := by
  obtain ⟨net, hnet, horder, -, hmany⟩ := generate_regular ⟨3, 2, 10.0, 1⟩ (by decide) (by decide)
  obtain ⟨hcount, hrows⟩ := hmany (by decide)
  exact ⟨net, hnet, horder, hcount, hrows⟩

example : (⟨3, 2, 10.0, 1⟩ : Uniform).arcs.map Arc.head = [2, 1, 0, 2, 0, 1] := by decide +kernel

end Network.Uniform

end PushRelabel
