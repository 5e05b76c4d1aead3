import PushRelabel.Proofs.FlowGraph.Meaning
import PushRelabel.Proofs.Outcomes
import PushRelabel.Proofs.Pass.Rounds
import PushRelabel.Proofs.Pass.Transfers

/-! # Between two nodes flow goes one way

In a round two nodes never send to each other, so each arc is changed by one of its ends at most.
Which of them may send depends on the labels and the excess at the start of the round only, and
not on the labels that they reach or on the order in which they are discharged. The arithmetic
need not be exact.
-/

namespace PushRelabel

variable {K : Type} [Quantity K] {g : FlowGraph K} {sink : g.Node}

namespace Round

variable {r : Round g} {v w : g.Node} {d e : g.DartOf}

/-- A node that sends to an active node has won against it. -/
theorem Permits.wins (h : r.Permits sink v d) (hsink : d.other ≠ sink)
    (hpos : 0 < r.excess[d.other]) : wins r.labels v d.other :=
  (h.fair.resolve_left hsink).resolve_left (not_not.mpr hpos)

/-- Of two active nodes at most one may send to the other one. -/
theorem Permits.not_back (h : r.Permits sink v d) (h' : r.Permits sink w e) (hv : v ≠ sink)
    (hw : w ≠ sink) (hpos : 0 < r.excess[v]) (hpos' : 0 < r.excess[w]) (hto : d.other = w) :
    e.other ≠ v := by
  rintro rfl
  subst hto
  exact not_wins_of_wins (h.wins hw hpos') (h'.wins hv hpos)

/-- Two nodes that send along one arc are its ends. -/
theorem Permits.eq_or (h : r.Permits sink v d) (h' : r.Permits sink w e) (harc : d.arc = e.arc) :
    v = w ∨ d.other = w ∧ e.other = v := by
  rcases g.mem_darts_iff.mp h.mem_darts with ⟨-, htail, hhead⟩ | ⟨-, hhead, htail⟩ <;>
    rcases g.mem_darts_iff.mp h'.mem_darts with ⟨-, htail', hhead'⟩ | ⟨-, hhead', htail'⟩
  · exact Or.inl (by rw [← htail, ← htail', harc])
  · exact Or.inr ⟨by rw [← hhead, ← hhead', harc], by rw [← htail, ← htail', harc]⟩
  · exact Or.inr ⟨by rw [← htail, ← htail', harc], by rw [← hhead, ← hhead', harc]⟩
  · exact Or.inl (by rw [← hhead, ← hhead', harc])

theorem transfers_append (sink : g.Node) (vs ws : List g.Node) (r : Round g) :
    transfers sink (vs ++ ws) r =
      transfers sink vs r ++ transfers sink ws (vs.foldl (fun r v => r.discharge sink v) r) := by
  induction vs generalizing r with
  | nil => rfl
  | cons v vs ih => simp only [List.cons_append, transfers, ih, List.append_assoc, List.foldl_cons]

end Round

namespace Rounds

open Round (transfers)

variable {s : Rounds g} {vs : List g.Node}

/-- While the working set is discharged, no two of its nodes send to each other, so each arc is
changed by one of its ends at most. The transfers account for all that happens to the flow, or
some of the first ones if the phase is interrupted. Neither node has to be discharged before the
other one for this: whatever has been done to the round when they look at their darts, and
whatever labels they have reached by then, at most one of them may send to the other. -/
theorem one_way (running : Bool) (hlists : s.workingSet.Lists vs)
    (hactive : ∀ v ∈ vs, 0 < s.excess[v]) (hsink : sink ∉ vs) :
    (∀ t ∈ transfers sink vs s.toRound, ∀ t' ∈ transfers sink vs s.toRound,
      (t.dart.other = t'.giver → t'.dart.other ≠ t.giver) ∧
        (t.dart.arc = t'.dart.arc → t.giver = t'.giver)) ∧
    (∀ u q, forEach running (Round.discharge sink) s = .ok u q →
      q.flow = (transfers sink vs s.toRound).foldl Transfer.apply s.flow) ∧
    Leaves (fun q : Rounds g => ∃ ts, ts <+: transfers sink vs s.toRound ∧
      q.flow = ts.foldl Transfer.apply s.flow) (forEach running (Round.discharge sink) s) ∧
    ∀ v ∈ vs, ∀ w ∈ vs, ∀ (p q : Round.Scan g) (i j : Nat) (d e : g.DartOf),
      s.toRound.Untouched p.round → s.toRound.Untouched q.round → p.Admits sink v i d →
        q.Admits sink w j e → d.other = w → e.other ≠ v := by
  have hone : ∀ v ∈ vs, ∀ w ∈ vs, ∀ d e, s.toRound.Permits sink v d → s.toRound.Permits sink w e →
      d.other = w → e.other ≠ v := fun v hv w hw d e hd he =>
    hd.not_back he (ne_of_mem_of_not_mem hv hsink) (ne_of_mem_of_not_mem hw hsink) (hactive v hv)
      (hactive w hw)
  refine ⟨fun t ht t' ht' => ?_, fun u q hq => ?_, ?_, ?_⟩
  · obtain ⟨hmem, hpermits⟩ := Round.permits_of_mem_transfers ht
    obtain ⟨hmem', hpermits'⟩ := Round.permits_of_mem_transfers ht'
    have hback := hone _ hmem _ hmem' _ _ hpermits hpermits'
    exact ⟨hback, fun harc => (hpermits.eq_or hpermits' harc).resolve_right fun h => hback h.1 h.2⟩
  · obtain ⟨hround, -⟩ := forEach_eq_ok hlists.cursor_eq hq
    rw [hround, hlists.toList_eq, Round.flow_foldl_discharge]
  · refine (leaves_forEach running _ hlists.cursor_eq).mono fun q hq => ?_
    obtain ⟨-, ws, ⟨us, hws⟩, hround⟩ := hq
    -- an interrupted phase has discharged the front of the working set
    refine ⟨transfers sink ws s.toRound, ?_, ?_⟩
    · rw [← hlists.toList_eq, ← hws, Round.transfers_append]
      exact List.prefix_append _ _
    · rw [hround, Round.flow_foldl_discharge]
  · intro v hv w hw p q i j d e hp hq hd he
    exact hone v hv w hw d e (hd.permits hp) (he.permits hq)

/-- The nodes of the network, the last one first, each with one unit of excess and all with the
same label. -/
def tied (g : FlowGraph ℤ) : Rounds g :=
  let nodes := ((List.finRange g.order).map g.inner).reverse
  let preflow : Preflow g :=
    { flow := Vector.ofFn fun i => if i.val = 0 ∨ i.val = 2 then 1 else 0
      excess := Vector.replicate g.nodeCount 1
      labels := Vector.replicate g.nodeCount 3 }
  { start .counts 2 (.start 2 preflow (.start false none)) with
    workingSet := ⟨nodes.toArray, nodes.length, 0⟩ }

/-- What the tied nodes send: the giver, the receiver and the amount. -/
def bottleneckTransfers? : Option (List (Nat × Nat × ℤ)) :=
  match Problem.bottleneck.build with
  | .error _ => none
  | .ok g =>
      some ((transfers g.target (tied g).workingSet.toList (tied g).toRound).map fun t =>
        (t.giver.val, t.dart.other.val, t.amount))

theorem bottleneckTransfers?_eq : bottleneckTransfers? = some [(0, 1, 1)] := by
  decide +kernel

/-- Nodes 0 and 1 could both send to each other, and node 1 comes first. Node 0 has won. -/
theorem one_way_bottleneck : ∃ g vs, Problem.bottleneck.build = .ok g ∧
    (tied g).workingSet.Lists vs ∧ (∀ v ∈ vs, 0 < (tied g).excess[v]) ∧ g.target ∉ vs ∧
    ((transfers g.target vs (tied g).toRound).map fun t =>
      (t.giver.val, t.dart.other.val, t.amount)) = [(0, 1, 1)] ∧
    ∀ t ∈ transfers g.target vs (tied g).toRound, ∀ t' ∈ transfers g.target vs (tied g).toRound,
      (t.dart.other = t'.giver → t'.dart.other ≠ t.giver) ∧
        (t.dart.arc = t'.dart.arc → t.giver = t'.giver) := by
  have htransfers := bottleneckTransfers?_eq
  unfold bottleneckTransfers? at htransfers
  cases hbuild : Problem.bottleneck.build with
  | error _ => simp [hbuild] at htransfers
  | ok g =>
      simp only [hbuild, Option.some.injEq] at htransfers
      have hlists : (tied g).workingSet.Lists (tied g).workingSet.toList :=
        ⟨rfl, by simp [tied, WorkingSet.toList], rfl⟩
      have hactive : ∀ v ∈ (tied g).workingSet.toList, 0 < (tied g).excess[v] := by
        intro v _
        simp [tied, start, Round.start, Pass.start]
      have hsink : g.target ∉ (tied g).workingSet.toList := by
        intro hmem
        obtain ⟨v, hv⟩ : ∃ v, g.inner v = g.target := by
          simpa [tied] using List.mem_of_mem_take hmem
        have hval : v.val = g.order + 1 := congrArg Fin.val hv
        omega
      exact ⟨g, _, rfl, hlists, hactive, hsink, htransfers, (one_way true hlists hactive hsink).1⟩

end Rounds

end PushRelabel
