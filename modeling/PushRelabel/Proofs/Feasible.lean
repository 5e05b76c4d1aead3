import PushRelabel.Proofs.Network

/-! # Feasible flows of a problem

What a problem asks for, said on its network and without a flow graph: no arc carries
more than its capacity, a source sends out what it supplies on top of what it takes in,
a target keeps at most its demand, and the limit of a node bounds all that enters it.
-/

namespace PushRelabel

variable {K : Type}

namespace Terminals

def ids : Terminals K → List Nat
  | list ids => ids
  | map entries => entries.map Prod.fst

/-- A terminal and the most that it supplies or absorbs, which is its own capacity if no
other one is given. -/
def Gives (own : K) (t : Terminals K) (id : Nat) (most : K) : Prop :=
  match t with
  | list ids => id ∈ ids ∧ most = own
  | map entries => (id, most) ∈ entries

theorem mem_ids_iff {own : K} {t : Terminals K} {id : Nat} :
    id ∈ t.ids ↔ ∃ most, t.Gives own id most := by
  cases t with
  | list ids => simp [Terminals.ids, Gives]
  | map entries => simp [Terminals.ids, Gives]

end Terminals

namespace Problem

variable (p : Problem K)

def IsSource (v : Fin p.network.order) : Prop := v.val ∈ p.sources.ids

def IsTarget (v : Fin p.network.order) : Prop := v.val ∈ p.targets.ids

instance (v : Fin p.network.order) : Decidable (p.IsSource v) :=
  inferInstanceAs (Decidable (_ ∈ _))

instance (v : Fin p.network.order) : Decidable (p.IsTarget v) :=
  inferInstanceAs (Decidable (_ ∈ _))

variable [AddCommGroup K]

/-- The most that a source supplies. Without a capacity it is what its arcs allow. -/
def Supplies (v : Fin p.network.order) (most : K) : Prop :=
  p.sources.Gives (Network.outflow Network.Place.capacity v) v most

/-- The most that a target absorbs. -/
def Demands (v : Fin p.network.order) (most : K) : Prop :=
  p.targets.Gives (Network.inflow Network.Place.capacity v) v most

/-- What a node sends out on top of what it takes in. -/
def emission (f : p.network.Place → K) (v : Fin p.network.order) : K :=
  Network.outflow f v - Network.inflow f v

/-- What a node keeps. -/
def absorption (f : p.network.Place → K) (v : Fin p.network.order) : K :=
  Network.inflow f v - Network.outflow f v

/-- What the targets keep together. -/
def value (f : p.network.Place → K) : K :=
  ∑ v, if p.IsTarget v then p.absorption f v else 0

structure Feasible [LE K] (f : p.network.Place → K) : Prop where
  nonneg : ∀ a, 0 ≤ f a
  le_capacity : ∀ a, f a ≤ a.capacity
  conserved : ∀ v, ¬ p.IsSource v → ¬ p.IsTarget v →
    Network.inflow f v = Network.outflow f v
  emission_nonneg : ∀ v, p.IsSource v → 0 ≤ p.emission f v
  emission_le : ∀ v most, p.Supplies v most → p.emission f v ≤ most
  absorption_nonneg : ∀ v, p.IsTarget v → 0 ≤ p.absorption f v
  absorption_le : ∀ v most, p.Demands v most → p.absorption f v ≤ most
  limited : ∀ v limit, p.limits[v] = some limit →
    Network.inflow f v + (if p.IsSource v then p.emission f v else 0) ≤ limit

/-- A list that has one entry for each place that carries something, and no other. -/
def Reports [LT K] (f : p.network.Place → K) (entries : List (ArcFlow K)) : Prop :=
  ∃ places : List p.network.Place, places.Nodup ∧ (∀ a, a ∈ places ↔ 0 < f a) ∧
    entries = places.map fun a => ⟨a.tail, a.head, f a⟩

variable {p}

end Problem

end PushRelabel
