import PushRelabel.Proofs.Flow.Shortest
import PushRelabel.Proofs.Pass.Bookkeeping

/-! # Rounds end with exact labels

The labels are marked as exact only by a search, and every round takes the mark away before it
changes anything. So while the mark is there, labels are the distances to the sink and the working
set has the active nodes, whatever an engine has kept from earlier passes and however arithmetic
rounds. A pass ends with the mark and without active nodes, so excess that is left cannot be
delivered any more.
-/

namespace PushRelabel.Rounds

variable {K : Type} [Quantity K] {g : FlowGraph K} {source sink : g.Node} {s t p q : Rounds g}
  {u w : Unit}

/-- What the mark promises. -/
structure Honest (source sink : g.Node) (s : Rounds g) : Prop where
  lists : s.workingSet.Lists s.workingSet.toList
  exactLabels : s.exact = true → g.ExactLabels s.flow s.labels source sink
  mem_iff : s.exact = true →
    ∀ v, v ∈ s.workingSet.toList ↔ v ≠ source ∧ v ≠ sink ∧ s.IsActive v

theorem honest_of_relabel (hne : source ≠ sink) (h : relabel source sink s = .ok u t) :
    t.Honest source sink := by
  obtain ⟨⟨-, -, hexact⟩, -, hlists, -⟩ := relabel_eq_ok hne h
  have hlist := hlists.toList_eq
  refine ⟨hlist ▸ hlists, fun _ => hexact, fun _ v => ?_⟩
  rw [hlist]
  exact Preflow.mem_active

namespace Honest

theorem record (h : s.Honest source sink) (journal : Journal K) :
    { s with journal := journal }.Honest source sink :=
  ⟨h.lists, h.exactLabels, h.mem_iff⟩

/-- A round leaves no mark, so nothing is promised after it. -/
theorem round (h : s.Honest source sink) (hdischarge : discharge sink s = .ok u p)
    (hrenew : renew sink p = .ok w q) : q.Honest source sink := by
  obtain ⟨-, hinexact, -⟩ := discharge_eq_ok h.lists.cursor_eq hdischarge
  obtain ⟨-, hsame, hlists, -⟩ := renew_eq_ok hrenew
  have hfalse : q.exact ≠ true := by simp [hsame, hinexact]
  exact ⟨hlists.toList_eq ▸ hlists, fun hexact => absurd hexact hfalse,
    fun hexact => absurd hexact hfalse⟩

theorem reorder (h : s.Honest source sink) {set : WorkingSet g.Node} {vs : List g.Node}
    (hset : set.Lists vs) (hperm : vs.Perm s.workingSet.toList) :
    { s with workingSet := set }.Honest source sink := by
  have hlist := hset.toList_eq
  refine ⟨hlist ▸ hset, h.exactLabels, fun hexact v => ?_⟩
  rw [← h.mem_iff hexact, hlist, hperm.mem_iff]

end Honest

theorem Between.honest (h : Between source sink s t) (hne : source ≠ sink) :
    t.Honest source sink := by
  induction h with
  | started journal hrelabel => exact (honest_of_relabel hne hrelabel).record journal
  | discharged _ hdischarge hrenew ih => exact ih.round hdischarge hrenew
  | relabelled journal _ hrelabel _ => exact (honest_of_relabel hne hrelabel).record journal
  | reordered _ hset hperm ih => exact ih.reorder hset hperm

/-- An engine may have any flow, excess and labels, and anything that earlier passes have left.
While its labels are marked as exact they are the distances to the sink, and the working set has
the active nodes between the terminals. So when a pass ends, its labels are the distances, and
nodes with excess other than the terminals have the sentinel label and do not reach the sink. -/
theorem distances_at_end (hne : source ≠ sink) (s : Rounds g) :
    (∀ t, Between source sink s t → t.exact = true →
      g.Distances t.flow t.labels source sink ∧
        ∀ v, v ∈ t.workingSet.toList ↔ v ≠ source ∧ v ≠ sink ∧ t.IsActive v) ∧
    ∀ threshold fuel t, run threshold fuel source sink s = .ok () t →
      g.Distances t.flow t.labels source sink ∧
        ∀ v : g.Node, v ≠ source → v ≠ sink → 0 < t.excess[v] →
          t.labels[v] = g.nodeCount ∧ ¬ g.Reaches t.flow source v sink := by
  refine ⟨fun t hbetween hexact => ?_, fun threshold fuel t hrun => ?_⟩
  · have hhonest := hbetween.honest hne
    exact ⟨(hhonest.exactLabels hexact).distances, hhonest.mem_iff hexact⟩
  · obtain ⟨hbetween, hempty, hexact⟩ := between_of_run hrun
    have hhonest := hbetween.honest hne
    have hlabels := hhonest.exactLabels hexact
    refine ⟨hlabels.distances, fun v hsource hsink hexcess => ?_⟩
    have hinactive : ¬ t.IsActive v := fun hactive => by
      have hmem := (hhonest.mem_iff hexact v).mpr ⟨hsource, hsink, hactive⟩
      rw [hhonest.lists.isEmpty_iff.mp hempty] at hmem
      exact List.not_mem_nil hmem
    have hlabel : t.labels[v] = g.nodeCount :=
      (hlabels.le_nodeCount v).antisymm (not_lt.mp fun hlt => hinactive ⟨hexcess, hlt⟩)
    exact ⟨hlabel, hlabels.toValidLabels.not_reaches hlabel⟩

/-- The labels after a first pass and after one that takes back what the first has stranded, both
with the same engine. -/
def tenthsLabels? : Option (List Nat × List Nat) :=
  match Problem.tenths.build with
  | .error _ => none
  | .ok g =>
      match run 40 20 g.source g.target (tenthsStart g) with
      | .error _ _ => none
      | .ok _ t =>
          match run 40 20 g.target g.source t with
          | .error _ _ => none
          | .ok _ q => some (t.labels.toList, q.labels.toList)

set_option maxRecDepth 10000 in
theorem tenthsLabels?_eq : tenthsLabels? = some ([6, 6, 6, 6, 6, 0], [1, 2, 2, 3, 0, 6]) := by
  decide +kernel

/-- After the first pass the sink is full. The second one starts from what the first has left and
sends back along arcs that carry flow. -/
theorem distances_at_end_tenths : ∃ g t q, Problem.tenths.build = .ok g ∧ g.target ≠ g.source ∧
    run 40 20 g.source g.target (tenthsStart g) = .ok () t ∧
    run 40 20 g.target g.source t = .ok () q ∧
    q.labels.toList = [1, 2, 2, 3, 0, 6] ∧ g.Distances q.flow q.labels g.target g.source ∧
    ∀ v : g.Node, v ≠ g.target → v ≠ g.source → 0 < q.excess[v] →
      q.labels[v] = g.nodeCount ∧ ¬ g.Reaches q.flow g.target v g.source := by
  have hlabels := tenthsLabels?_eq
  unfold tenthsLabels? at hlabels
  cases hbuild : Problem.tenths.build with
  | error _ => simp [hbuild] at hlabels
  | ok g =>
      simp only [hbuild] at hlabels
      cases hfirst : run 40 20 g.source g.target (tenthsStart g) with
      | error _ _ => simp [hfirst] at hlabels
      | ok _ t =>
          simp only [hfirst] at hlabels
          cases hsecond : run 40 20 g.target g.source t with
          | error _ _ => simp [hsecond] at hlabels
          | ok _ q =>
              simp only [hsecond, Option.some.injEq, Prod.mk.injEq] at hlabels
              have hne : g.target ≠ g.source := g.source_ne_target.symm
              obtain ⟨hdistances, hexcess⟩ := (distances_at_end hne t).2 40 20 q hsecond
              exact ⟨g, t, q, rfl, hne, hfirst, hsecond, hlabels.2, hdistances, hexcess⟩

end PushRelabel.Rounds
