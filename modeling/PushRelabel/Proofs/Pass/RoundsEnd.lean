import PushRelabel.Proofs.Pass.Deliveries
import PushRelabel.Proofs.Pass.Livelock
import PushRelabel.Proofs.Pass.RoundsReady

/-! # Passes in rounds end

Suppose steps follow each other forever. Over the integers, nothing arrives at the sink from some
step on, because its arcs carry only so much. Then labels are not recomputed any more, or excess
would drain into the sink; so they only rise, and come to rest as well. What is left are rounds
in which excess goes round in circles, and there are none.
-/

namespace PushRelabel

/-- A sequence of integers that never falls and is bounded comes to rest. -/
theorem exists_rest_of_bounded {a : ℕ → ℤ} {b : ℤ} (hrises : ∀ i, a i ≤ a (i + 1))
    (hbound : ∀ i, a i ≤ b) : ∃ n, ∀ i, a (n + i) = a n := by
  obtain ⟨_, ⟨n, rfl⟩, hgreatest⟩ := Int.exists_greatest_of_bdd (P := fun z => ∃ i, a i = z)
    ⟨b, by rintro _ ⟨i, rfl⟩; exact hbound i⟩ ⟨_, 0, rfl⟩
  refine ⟨n, fun i => le_antisymm (hgreatest _ ⟨n + i, rfl⟩) ?_⟩
  exact monotone_nat_of_le_succ hrises (Nat.le_add_right n i)

namespace Rounds

section Forever

variable {K : Type} [AddCommGroup K] [LinearOrder K] {g : FlowGraph K}
  {giver source sink : g.Node} {start : Preflow g} {f : ℕ → Rounds g} {i level : ℕ}

/-- Steps follow each other forever. -/
structure Forever (start : Preflow g) (giver source sink : g.Node) (f : ℕ → Rounds g) :
    Prop where
  poised : ∀ i, (f i).Poised start giver source sink
  moves : ∀ i, Moves source sink (f i) (f (i + 1))
  unsettled : ∀ i, ¬ ((f i).exact = true ∧ (f i).workingSet.toList = [])

namespace Forever

theorem shift (h : Forever start giver source sink f) (n : ℕ) :
    Forever start giver source sink fun i => f (n + i) :=
  ⟨fun i => h.poised (n + i), fun i => h.moves (n + i), fun i => h.unsettled (n + i)⟩

variable [IsOrderedAddMonoid K] (h : Forever start giver source sink f)
  (hproper : g.Proper) (hne : source ≠ sink) (hgiver : giver = source ∨ giver = sink)
  (hkeeps : ∀ i, (f (i + 1)).excess[sink] = (f i).excess[sink])

include h hproper hne hgiver hkeeps

/-- While nothing arrives at the sink, the level below which excess drains would fall forever. -/
theorem not_drains : ¬ (f i).Drains sink level := by
  induction level using Nat.strong_induction_on generalizing i with
  | _ level ih =>
      intro hdrains
      obtain ⟨lower, hlower, hnext⟩ :=
        hdrains.moves (h.poised i) hproper hne hgiver (hkeeps i) (h.moves i)
      exact ih lower hlower hnext

theorem advances (i : ℕ) : (f i).workingSet.toList ≠ [] ∧ (f i).Advances sink (f (i + 1)) := by
  rcases (h.moves i).advances_or hne with hadvances | hsettled | hdrains
  · exact hadvances
  · exact absurd hsettled (h.unsettled (i + 1))
  · exact absurd hdrains (h.not_drains hproper hne hgiver hkeeps)

theorem label_le (i : ℕ) (v : g.Node) : (f i).labels[v] ≤ (f (i + 1)).labels[v] :=
  label_le_advances hproper (h.poised i) (h.advances hproper hne hgiver hkeeps i).2 v

theorem exists_labels_rest : ∃ n, ∀ i, (f (n + i)).labels = (f n).labels := by
  have hrises := h.label_le hproper hne hgiver hkeeps
  obtain ⟨n, hrest⟩ := exists_rest_of_bounded
    (a := fun i => ∑ v : g.Node, ((f i).labels[v] : ℤ))
    (b := ∑ v : g.Node, (g.nodeCount : ℤ))
    (fun i => Finset.sum_le_sum fun v _ => Int.ofNat_le.mpr (hrises i v))
    (fun i => Finset.sum_le_sum fun v _ => Int.ofNat_le.mpr ((h.poised i).label_le v))
  refine ⟨n, fun i => Vector.ext_fin fun v => ?_⟩
  have hle : ∀ u : g.Node, (f n).labels[u] ≤ (f (n + i)).labels[u] := fun u =>
    monotone_nat_of_le_succ (f := fun i => (f i).labels[u]) (fun i => hrises i u)
      (Nat.le_add_right n i)
  have hsame := (Finset.sum_eq_sum_iff_of_le fun u _ => Int.ofNat_le.mpr (hle u)).mp
    (hrest i).symm v (Finset.mem_univ v)
  exact (Int.ofNat.inj hsame).symm

theorem false_of_keeps : False := by
  obtain ⟨n, hrest⟩ := h.exists_labels_rest hproper hne hgiver hkeeps
  have hadvances := h.advances hproper hne hgiver hkeeps
  have hcircles : Circles start giver source sink (f n).labels fun i => f (n + i) :=
    ⟨fun i => h.poised (n + i), fun i => (hadvances (n + i)).2, fun i => hkeeps (n + i), hrest⟩
  exact (hadvances (n + 1)).1 (hcircles.toList_eq_nil hproper hne hgiver 0)

end Forever

end Forever

variable {g : FlowGraph ℤ} {giver source sink : g.Node} {start : Preflow g} {s t : Rounds g}
  {excused : Halt → Prop}
  {f : ℕ → Rounds g} {batch threshold : Nat}

/-- Over the integers, nothing arrives at the sink from some step on. -/
theorem Forever.exists_keeps (h : Forever start giver source sink f) (hproper : g.Proper)
    (hne : source ≠ sink) : ∃ n, ∀ i, (f (n + i)).excess[sink] = (f n).excess[sink] :=
  exists_rest_of_bounded (a := fun i => (f i).excess[sink])
    (fun i => (h.moves i).delivered_le (h.poised i) hproper hne)
    (fun i => (h.poised i).balanced.excess_le sink)

/-- Steps do not follow each other forever. -/
theorem not_forever (hproper : g.Proper) (hne : source ≠ sink)
    (hgiver : giver = source ∨ giver = sink) : ¬ Forever start giver source sink f := by
  intro h
  obtain ⟨n, hkeeps⟩ := h.exists_keeps hproper hne
  exact (h.shift n).false_of_keeps hproper hne hgiver
    fun i => (hkeeps (i + 1)).trans (hkeeps i).symm

/-- From no state between two rounds can a pass go on forever. -/
theorem acc_of_between (hproper : g.Proper) (hne : source ≠ sink)
    (hgiver : giver = source ∨ giver = sink) (hfits : g.Fits s.flow)
    (hexcess : ∀ v : g.Node, v ≠ giver → 0 ≤ s.excess[v]) (hadded : ∀ v : g.Node, s.added[v] = 0)
    (h : Between source sink s t) :
    Acc (fun t q => step threshold source sink q = .ok true t) t := by
  by_contra hacc
  obtain ⟨f, rfl, hsteps⟩ := not_acc_iff_exists_descending_chain.mp hacc
  have hbetween : ∀ i, Between source sink s (f i) := fun i => by
    induction i with
    | zero => exact h
    | succ i ih => exact ih.step (hsteps i)
  have hpoised := fun i => (hbetween i).poised hproper hne hfits hexcess hadded
  exact not_forever hproper hne hgiver ⟨hpoised,
    fun i => (moves_of_step (hpoised i) (hsteps i)).1,
    fun i => (moves_of_step (hpoised i) (hsteps i)).2⟩

theorem ends_run (hproper : g.Proper) (hne : source ≠ sink)
    (hgiver : giver = source ∨ giver = sink) (hfits : g.Fits s.flow)
    (hexcess : ∀ v : g.Node, v ≠ giver → 0 ≤ s.excess[v]) (hadded : ∀ v : g.Node, s.added[v] = 0)
    (h : s.Ready excused batch) (hbatch : 1 ≤ batch) :
    Ends excused (fun fuel => run threshold fuel source sink) s :=
  ends_run_of_acc h hbatch hne hadded fun _ hbetween =>
    acc_of_between hproper hne hgiver hfits hexcess hadded hbetween

end Rounds

end PushRelabel
