import PushRelabel.Pass.Fifo
import PushRelabel.Proofs.Pass.Round

/-! # What discharges send

A discharge changes the flow only by what it sends along darts of its node. Expanded into such
transfers, one after the other, it leaves the same flow. In a round all of them obey the labels
and the excess that were there at its start, whatever else is discharged in between.
-/

namespace PushRelabel

variable {K : Type}

/-- Something that a node sends along one of its darts. -/
structure Transfer (g : FlowGraph K) where
  giver : g.Node
  dart : g.DartOf
  amount : K

variable [Quantity K] {g : FlowGraph K} {sink v : g.Node}

/-- Carries out a transfer. -/
def Transfer.apply (flow : g.Flow) (t : Transfer g) : g.Flow := g.push flow t.dart t.amount

namespace Fifo

variable {s : Fifo g} {t : Transfer g}

/-- What a scan of candidates sends. -/
def scanTransfers (sink v : g.Node) : List (Nat × g.DartOf) → Fifo g → List (Transfer g)
  | [], _ => []
  | (label, d) :: rest, s =>
      let (s, retired) := s.raiseLabel v (label + 1)
      if retired then []
      else if g.residual s.flow d ≤ 0 then scanTransfers sink v rest s
      else
        let sent : Transfer g := ⟨v, d, Quantity.least s.excess[v] (g.residual s.flow d)⟩
        let s := s.send sink v d
        if s.excess[v] ≤ 0 then [sent] else sent :: scanTransfers sink v rest s

/-- What the discharge of a node sends. -/
def transfers (sink v : g.Node) (s : Fifo g) : List (Transfer g) :=
  scanTransfers sink v (s.candidates v) s

omit [Quantity K] in
theorem flow_setLabel (s : Fifo g) (v : g.Node) (label : Nat) :
    (s.setLabel v label).1.flow = s.flow := by
  unfold setLabel
  dsimp only
  split <;> rfl

omit [Quantity K] in
theorem flow_raiseLabel (s : Fifo g) (v : g.Node) (label : Nat) :
    (s.raiseLabel v label).1.flow = s.flow := by
  unfold raiseLabel
  split
  · exact flow_setLabel s v label
  · rfl

theorem flow_send (s : Fifo g) (sink v : g.Node) (d : g.DartOf) :
    (s.send sink v d).flow =
      g.push s.flow d (Quantity.least s.excess[v] (g.residual s.flow d)) := by
  unfold send enqueue
  dsimp only
  split
  · rfl
  · split <;> rfl

theorem flow_scan (cs : List (Nat × g.DartOf)) (s : Fifo g) :
    (scan sink v cs s).1.flow = (scanTransfers sink v cs s).foldl Transfer.apply s.flow := by
  induction cs generalizing s with
  | nil => rfl
  | cons c cs ih =>
      rcases c with ⟨label, d⟩
      have hraised := flow_raiseLabel s v (label + 1)
      unfold scan scanTransfers
      dsimp only
      split
      next => exact hraised
      next =>
        split
        next => rw [ih, hraised]
        next =>
          have hsent := flow_send (s.raiseLabel v (label + 1)).1 sink v d
          split
          next =>
            rw [hsent, hraised]
            rfl
          next =>
            rw [ih, hsent, List.foldl_cons, hraised]
            rfl

/-- The transfers of a discharge account for all that it changes of the flow. -/
theorem flow_discharge (sink v : g.Node) (s : Fifo g) :
    (s.discharge sink v).flow = (s.transfers sink v).foldl Transfer.apply s.flow := by
  have hscan : (scan sink v (s.candidates v) s).1.flow =
      (scanTransfers sink v (s.candidates v) s).foldl Transfer.apply s.flow := flow_scan _ s
  unfold discharge
  dsimp only
  split
  · rw [flow_setLabel]
    exact hscan
  · exact hscan

theorem mem_of_mem_scanTransfers {cs : List (Nat × g.DartOf)}
    (h : t ∈ scanTransfers sink v cs s) : t.giver = v ∧ ∃ c ∈ cs, c.2 = t.dart := by
  induction cs generalizing s with
  | nil => exact absurd h List.not_mem_nil
  | cons c cs ih =>
      rcases c with ⟨label, d⟩
      have hlater : ∀ r : Fifo g, t ∈ scanTransfers sink v cs r →
          t.giver = v ∧ ∃ c ∈ (label, d) :: cs, c.2 = t.dart := by
        intro r h
        obtain ⟨hgiver, c, hc, hdart⟩ := ih h
        exact ⟨hgiver, c, List.mem_cons_of_mem _ hc, hdart⟩
      have hnow : ∀ a, t = ⟨v, d, a⟩ → t.giver = v ∧ ∃ c ∈ (label, d) :: cs, c.2 = t.dart := by
        rintro a rfl
        exact ⟨rfl, (label, d), List.mem_cons_self, rfl⟩
      unfold scanTransfers at h
      dsimp only at h
      split at h
      next => exact absurd h List.not_mem_nil
      next =>
        split at h
        next => exact hlater _ h
        next =>
          split at h
          next => exact hnow _ (List.mem_singleton.mp h)
          next => exact (List.mem_cons.mp h).elim (hnow _) (hlater _)

end Fifo

namespace Round

variable {r : Round g} {t : Transfer g}

instance (r : Round g) (sink v : g.Node) (d : g.DartOf) : Decidable (r.Fair sink v d) :=
  inferInstanceAs (Decidable (_ ∨ _ ∨ _))

theorem Scan.admits_iff {s : Scan g} {label : Nat} {d : g.DartOf} :
    s.Admits sink v label d ↔ d ∈ g.darts v ∧ ¬ s.left ≤ 0 ∧ ¬ g.residual s.round.flow d ≤ 0 ∧
      s.round.labels[d.other] < g.nodeCount ∧ label = s.round.labels[d.other] + 1 ∧
        s.round.Fair sink v d :=
  ⟨fun ⟨h₁, h₂, h₃, h₄, h₅, h₆⟩ => ⟨h₁, h₂, h₃, h₄, h₅, h₆⟩,
    fun ⟨h₁, h₂, h₃, h₄, h₅, h₆⟩ => ⟨h₁, h₂, h₃, h₄, h₅, h₆⟩⟩

instance (s : Scan g) (sink v : g.Node) (label : Nat) (d : g.DartOf) :
    Decidable (s.Admits sink v label d) :=
  decidable_of_iff' _ Scan.admits_iff

/-- What a node sends while it looks at some darts, one after the other. -/
def Scan.transfers (sink v : g.Node) (label : Nat) : List g.DartOf → Scan g → List (Transfer g)
  | [], _ => []
  | d :: ds, s =>
      let later := transfers sink v label ds (s.visit sink v label d)
      if s.Admits sink v label d then
        ⟨v, d, Quantity.least s.left (g.residual s.round.flow d)⟩ :: later
      else later

/-- What a node sends at higher and higher labels. -/
def climbTransfers (sink v : g.Node) (label : Nat) (left : K) (round : Round g) :
    List (Transfer g) :=
  let s := scan sink v label left round
  let sent := Scan.transfers sink v label (g.darts v) ⟨round, left, g.nodeCount, false⟩
  if s.left ≤ 0 ∨ s.skipped then sent
  else if _h : label < s.next ∧ s.next < g.nodeCount then
    sent ++ climbTransfers sink v s.next s.left s.round
  else sent
termination_by g.nodeCount - label
decreasing_by exact Nat.sub_lt_sub_left (Nat.lt_trans _h.1 _h.2) _h.1

/-- What is sent while some nodes are discharged, one after the other. -/
def transfers (sink : g.Node) : List g.Node → Round g → List (Transfer g)
  | [], _ => []
  | v :: vs, r =>
      climbTransfers sink v r.labels[v] r.excess[v] r ++ transfers sink vs (r.discharge sink v)

namespace Scan

variable {s : Scan g} {label : Nat} {d : g.DartOf}

theorem flow_visit (hd : d ∈ g.darts v) :
    (s.visit sink v label d).round.flow =
      if s.Admits sink v label d then
        g.push s.round.flow d (Quantity.least s.left (g.residual s.round.flow d))
      else s.round.flow := by
  have hlooks := s.looks_visit sink label hd
  revert hlooks
  generalize s.visit sink v label d = q
  intro hlooks
  cases hlooks with
  | passes h =>
      refine (if_neg fun hadmits => ?_).symm
      have hlabel := hadmits.label_eq
      rcases h with h | h | h | h
      · exact hadmits.left_pos h
      · exact hadmits.other_lt.not_ge h
      · exact hadmits.residual_pos h
      · omega
  | skips _ hclaim => exact (if_neg fun hadmits => hclaim hadmits.fair).symm
  | sends hadmits =>
      rw [if_pos hadmits]
      unfold send discover
      dsimp only
      split
      · rfl
      · split <;> rfl
  | notes hlabel =>
      refine (if_neg fun hadmits => ?_).symm
      have := hadmits.label_eq
      omega

theorem untouched_visit (hd : d ∈ g.darts v) :
    s.round.Untouched (s.visit sink v label d).round := by
  have hlooks := s.looks_visit sink label hd
  revert hlooks
  generalize s.visit sink v label d = q
  intro hlooks
  cases hlooks with
  | sends => exact untouched_send s sink d
  | _ => exact ⟨rfl, rfl, rfl, rfl, rfl, rfl⟩

theorem flow_foldl_visit {ds : List g.DartOf} (hds : ∀ d ∈ ds, d ∈ g.darts v) (s : Scan g) :
    (ds.foldl (visit sink v label) s).round.flow =
      (transfers sink v label ds s).foldl Transfer.apply s.round.flow := by
  induction ds generalizing s with
  | nil => rfl
  | cons d ds ih =>
      rw [List.foldl_cons, ih (fun e he => hds e (List.mem_cons_of_mem d he)),
        flow_visit (hds d List.mem_cons_self), transfers]
      split <;> rfl

end Scan

theorem flow_climb (sink v : g.Node) (label : Nat) (left : K) (r : Round g) :
    (climb sink v label left r).1.flow =
      (climbTransfers sink v label left r).foldl Transfer.apply r.flow := by
  induction label, left, r using climb.induct sink v with
  | case1 label left r s hdone =>
      rw [climb, if_pos hdone, climbTransfers, if_pos hdone]
      exact Scan.flow_foldl_visit (fun _ hd => hd) _
  | case2 label left r s hgoes hnext ih =>
      rw [climb, if_neg hgoes, dif_pos hnext, climbTransfers, if_neg hgoes, dif_pos hnext,
        List.foldl_append, ih]
      congr 1
      exact Scan.flow_foldl_visit (fun _ hd => hd) _
  | case3 label left r s hgoes hnext =>
      rw [climb, if_neg hgoes, dif_neg hnext, climbTransfers, if_neg hgoes, dif_neg hnext]
      exact Scan.flow_foldl_visit (fun _ hd => hd) _

theorem flow_discharge (sink v : g.Node) (r : Round g) :
    (r.discharge sink v).flow =
      (climbTransfers sink v r.labels[v] r.excess[v] r).foldl Transfer.apply r.flow := by
  rw [← flow_climb]
  rcases hclimb : climb sink v r.labels[v] r.excess[v] r with ⟨c, left, label⟩
  rw [discharge_eq hclimb]
  unfold discover spend
  split
  · split <;> split <;> rfl
  · split <;> rfl

/-- The transfers of some discharges account for all that they change of the flow. -/
theorem flow_foldl_discharge (sink : g.Node) (vs : List g.Node) (r : Round g) :
    (vs.foldl (fun r v => r.discharge sink v) r).flow =
      (transfers sink vs r).foldl Transfer.apply r.flow := by
  induction vs generalizing r with
  | nil => rfl
  | cons v vs ih =>
      rw [List.foldl_cons, ih, flow_discharge, transfers, List.foldl_append]

/-! ## What the start of the round says of transfers -/

/-- At the start of a round a node may send along a dart: the other end has a label, and has no
claim to the dart. -/
structure Permits (r : Round g) (sink v : g.Node) (d : g.DartOf) : Prop where
  mem_darts : d ∈ g.darts v
  other_lt : r.labels[d.other] < g.nodeCount
  fair : r.Fair sink v d

theorem Scan.Admits.permits {s : Scan g} {label : Nat} {d : g.DartOf}
    (h : s.Admits sink v label d) (hs : r.Untouched s.round) : r.Permits sink v d :=
  ⟨h.mem_darts, hs.labels_eq ▸ h.other_lt, hs.fair_iff.mp h.fair⟩

theorem Untouched.permits {q : Round g} {d : g.DartOf} (h : r.Untouched q)
    (hd : q.Permits sink v d) : r.Permits sink v d :=
  ⟨hd.mem_darts, h.labels_eq ▸ hd.other_lt, h.fair_iff.mp hd.fair⟩

theorem Scan.permits_of_mem_transfers {label : Nat} {ds : List g.DartOf}
    (hds : ∀ d ∈ ds, d ∈ g.darts v) {s : Scan g} (h : t ∈ Scan.transfers sink v label ds s) :
    t.giver = v ∧ s.round.Permits sink v t.dart := by
  induction ds generalizing s with
  | nil => exact absurd h List.not_mem_nil
  | cons d ds ih =>
      have hlater : t ∈ Scan.transfers sink v label ds (s.visit sink v label d) →
          t.giver = v ∧ s.round.Permits sink v t.dart := by
        intro h
        refine (ih (fun e he => hds e (List.mem_cons_of_mem d he)) h).imp_right ?_
        exact (untouched_visit (hds d List.mem_cons_self)).permits
      unfold Scan.transfers at h
      dsimp only at h
      split at h
      next hadmits =>
        rcases List.mem_cons.mp h with rfl | h
        · exact ⟨rfl, hadmits.permits ⟨rfl, rfl, rfl, rfl, rfl, rfl⟩⟩
        · exact hlater h
      next => exact hlater h

theorem untouched_scan (sink v : g.Node) (label : Nat) (left : K) (r : Round g) :
    r.Untouched (scan sink v label left r).round := by
  have hsend : KeptBySending sink v label fun q _ => r.Untouched q :=
    fun s d _ h => h.trans (untouched_send s sink d)
  exact hsend.scan left ⟨rfl, rfl, rfl, rfl, rfl, rfl⟩

theorem permits_of_mem_climbTransfers {label : Nat} {left : K}
    (h : t ∈ climbTransfers sink v label left r) : t.giver = v ∧ r.Permits sink v t.dart := by
  induction label, left, r using climb.induct sink v with
  | case1 label left r s hdone =>
      rw [climbTransfers, if_pos hdone] at h
      exact Scan.permits_of_mem_transfers (fun _ hd => hd) h
  | case2 label left r s hgoes hnext ih =>
      rw [climbTransfers, if_neg hgoes, dif_pos hnext] at h
      have huntouched := untouched_scan sink v label left r
      rcases List.mem_append.mp h with h | h
      · exact Scan.permits_of_mem_transfers (fun _ hd => hd) h
      · exact (ih h).imp_right huntouched.permits
  | case3 label left r s hgoes hnext =>
      rw [climbTransfers, if_neg hgoes, dif_neg hnext] at h
      exact Scan.permits_of_mem_transfers (fun _ hd => hd) h

/-- Whatever is sent in a round was permitted at its start, and its giver is one of the nodes
that are discharged. -/
theorem permits_of_mem_transfers {vs : List g.Node} (h : t ∈ transfers sink vs r) :
    t.giver ∈ vs ∧ r.Permits sink t.giver t.dart := by
  induction vs generalizing r with
  | nil => exact absurd h List.not_mem_nil
  | cons v vs ih =>
      rcases List.mem_append.mp h with h | h
      · obtain ⟨hgiver, hpermits⟩ := permits_of_mem_climbTransfers h
        exact ⟨hgiver ▸ List.mem_cons_self, hgiver ▸ hpermits⟩
      · obtain ⟨hmem, hpermits⟩ := ih h
        exact ⟨List.mem_cons_of_mem v hmem, (untouched_discharge sink v r).permits hpermits⟩

end Round

end PushRelabel
