import PushRelabel.Proofs.Pass.Bookkeeping
import PushRelabel.Proofs.Pass.FifoGaps

/-! # Active nodes wait

Whenever a pass is about to take a node from its queue, the queue has each node at most once, it
has the nodes that are marked and no others, and no active node other than the terminals is missing
from it. So a pass that ends has left excess only to nodes with the sentinel label. It may start
from any flow, any excess and any labels, and arithmetic may round, overflow or be undefined.
-/

namespace PushRelabel.Fifo

variable {K : Type} [Quantity K] {g : FlowGraph K} {source sink : g.Node} {s t : Fifo g}
  {threshold fuel : Nat}

theorem Between.of_mem_visited {q : Fifo g} (h : Between threshold source sink s t)
    (hq : q ∈ visited (Fifo.step threshold source sink) fuel t) :
    Between threshold source sink s q :=
  invariant_of_mem_visited _ (fun _ _ hp hstep => hp.step hstep) h hq

/-- What the queue promises when a node is about to be taken from it. -/
structure Complete (source sink : g.Node) (s : Fifo g) : Prop where
  nodup : s.queue.toList.Nodup
  mem_iff : ∀ v : g.Node, v ∈ s.queue.toList ↔ s.queued[v] = true
  waiting : ∀ v : g.Node, v ≠ source → v ≠ sink → 0 < s.excess[v] → s.labels[v] < g.nodeCount →
    v ∈ s.queue.toList

theorem Kept.complete {start : Preflow g} (h : s.Kept start source sink none) :
    s.Complete source sink :=
  ⟨h.queues.nodup, h.queues.mem_iff, fun v hsource hsink hexcess hlabel =>
    h.waiting v nofun hsource hsink ⟨hexcess, hlabel⟩⟩

/-- No active node is lost: the queue is complete wherever a node is about to be taken from it,
also in a pass that is interrupted later. A pass ends when the queue is empty, so then every node
with excess other than the terminals has the sentinel label. -/
theorem complete_at_steps (hne : source ≠ sink) (threshold fuel : Nat) (s : Fifo g) :
    (∀ t, begin source sink s = .ok () t →
      ∀ q ∈ visited (step threshold source sink) fuel t, q.Complete source sink) ∧
    ∀ t, run threshold fuel source sink s = .ok () t →
      ∀ v : g.Node, v ≠ source → v ≠ sink → 0 < t.excess[v] → t.labels[v] = g.nodeCount := by
  constructor
  · intro t hbegin q hq
    have hbetween : Between threshold source sink s t := between_of_begin hbegin
    exact ((hbetween.of_mem_visited hq).kept hne).complete
  · intro t hrun v hsource hsink hexcess
    obtain ⟨hbetween, hempty⟩ := between_of_run hrun
    have hkept := hbetween.kept hne
    refine (hkept.le_nodeCount v).antisymm (not_lt.mp fun hlabel => ?_)
    have hmem := hkept.complete.waiting v hsource hsink hexcess hlabel
    rw [hempty] at hmem
    exact List.not_mem_nil hmem

/-- An engine that is about to start the first pass over a flow graph and retires nodes above
gaps. -/
def tenthsStart (g : FlowGraph Float) : Fifo g :=
  .start .buckets (.start 2 (Preflow.ofFlow g.initialFlow).saturate (.start false none))

/-- What is in the queue when the first node is taken from it. -/
def tenthsQueue? : Option (List Nat) :=
  match Problem.tenths.build with
  | .error _ => none
  | .ok g =>
      match begin g.source g.target (tenthsStart g) with
      | .error _ _ => none
      | .ok _ t => some (t.queue.toList.map Fin.val)

theorem tenthsQueue?_eq : tenthsQueue? = some [0] := by
  decide +kernel

/-- Node 0 waits for a discharge that will have to round what it sends. -/
theorem complete_at_steps_tenths : ∃ g t, Problem.tenths.build = .ok g ∧ g.source ≠ g.target ∧
    begin g.source g.target (tenthsStart g) = .ok () t ∧ t.queue.toList.map Fin.val = [0] ∧
    (∀ q ∈ visited (step 40 g.source g.target) 20 t, q.Complete g.source g.target) ∧
    ∀ last, run 40 20 g.source g.target (tenthsStart g) = .ok () last →
      ∀ v : g.Node, v ≠ g.source → v ≠ g.target → 0 < last.excess[v] →
        last.labels[v] = g.nodeCount := by
  have hqueue := tenthsQueue?_eq
  unfold tenthsQueue? at hqueue
  cases hbuild : Problem.tenths.build with
  | error _ => simp [hbuild] at hqueue
  | ok g =>
      simp only [hbuild] at hqueue
      cases hbegin : begin g.source g.target (tenthsStart g) with
      | error _ _ => simp [hbegin] at hqueue
      | ok _ t =>
          simp only [hbegin, Option.some.injEq] at hqueue
          obtain ⟨hsteps, hend⟩ := complete_at_steps g.source_ne_target 40 20 (tenthsStart g)
          exact ⟨g, t, rfl, g.source_ne_target, hbegin, hqueue, hsteps t hbegin, hend⟩

end PushRelabel.Fifo
