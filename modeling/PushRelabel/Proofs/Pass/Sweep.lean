import PushRelabel.Proofs.Pass.Turn

/-! # All turns of a round

The active nodes take their turns one after the other. A node finds its darts admitting no less
than at the start of the round, because until its turn only others have sent; and from its turn
on they admit no less than it has left.
-/

namespace PushRelabel

section Order

variable {α : Type} [DecidableEq α] {vs : List α} {a b : α}

/-- One element of a list comes before the other one. -/
def Precedes (vs : List α) (a b : α) : Prop := a ∈ vs.takeWhile (· ≠ b)

theorem takeWhile_append_of_mem (ha : a ∈ vs) (ws : List α) :
    (vs ++ ws).takeWhile (· ≠ a) = vs.takeWhile (· ≠ a) := by
  induction vs with
  | nil => exact absurd ha List.not_mem_nil
  | cons c vs ih =>
      rw [List.cons_append, List.takeWhile_cons, List.takeWhile_cons]
      by_cases hc : c = a
      · simp [hc]
      · rw [ih ((List.mem_cons.mp ha).resolve_left fun heq => hc heq.symm)]

/-- A list consists of what comes before an element, the element and the rest. -/
theorem exists_eq_takeWhile_append (ha : a ∈ vs) :
    ∃ ws, vs = vs.takeWhile (· ≠ a) ++ a :: ws := by
  obtain ⟨as, bs, rfl, has⟩ := List.eq_append_cons_of_mem ha
  refine ⟨bs, ?_⟩
  have htake : (as ++ a :: bs).takeWhile (· ≠ a) = as := by
    rw [List.takeWhile_append_of_pos fun c hc => by simpa using fun heq : c = a => has (heq ▸ hc)]
    simp
  rw [htake]

/-- Of two elements one comes first, if either is in the list. -/
theorem precedes_or_precedes (ha : a ∈ vs) (hne : a ≠ b) : Precedes vs a b ∨ Precedes vs b a := by
  obtain ⟨ws, hws⟩ := exists_eq_takeWhile_append ha
  by_cases hmem : b ∈ vs.takeWhile (· ≠ a)
  · exact Or.inr hmem
  · left
    rw [Precedes, hws,
      List.takeWhile_append_of_pos fun c hc => by simpa using fun heq : c = b => hmem (heq ▸ hc),
      List.takeWhile_cons_of_pos (by simpa)]
    exact List.mem_append_right _ List.mem_cons_self

theorem not_precedes_append (as bs : List α) (ha : a ∈ as) (hb : b ∉ as) :
    ¬ Precedes (as ++ bs) b a := by
  rw [Precedes, takeWhile_append_of_mem ha]
  exact fun hmem => hb (List.takeWhile_subset _ hmem)

theorem Precedes.mem (h : Precedes vs a b) : a ∈ vs := List.takeWhile_subset _ h

theorem Precedes.ne (h : Precedes vs a b) : a ≠ b := by
  simpa using List.mem_takeWhile_imp h

theorem not_mem_takeWhile (vs : List α) (a : α) : a ∉ vs.takeWhile (· ≠ a) :=
  fun hmem => (Precedes.ne hmem) rfl

theorem Precedes.not_precedes (h : Precedes vs a b) (hb : b ∈ vs) : ¬ Precedes vs b a := by
  obtain ⟨ws, hws⟩ := exists_eq_takeWhile_append hb
  rw [hws]
  exact not_precedes_append _ _ h (not_mem_takeWhile vs b)

end Order

namespace Round

variable {K : Type} [AddCommGroup K] [LinearOrder K] {g : FlowGraph K} {sink u v w : g.Node}
  {vs ws : List g.Node} {r q t : Round g} {left : K} {label : Nat} {d : g.DartOf}

/-- What turns of nodes leave as it was, or only add to. -/
structure Onward (r q : Round g) : Prop where
  untouched : r.Untouched q
  fits : g.Fits r.flow → g.Fits q.flow
  found_grows : r.found.toList <+: q.found.toList
  discovered_mono : ∀ u : g.Node, r.discovered[u] = true → q.discovered[u] = true

/-- What the turns of others mean to a node. -/
structure Spared (u : g.Node) (r q : Round g) : Prop extends Onward r q where
  residual_le : ∀ d ∈ g.darts u, g.residual r.flow d ≤ g.residual q.flow d
  added_le : r.added[u] ≤ q.added[u]
  staged_eq : q.staged[u] = r.staged[u]

theorem Onward.refl (r : Round g) : Onward r r :=
  ⟨⟨rfl, rfl, rfl, rfl, rfl, rfl⟩, id, List.prefix_rfl, fun _ h => h⟩

theorem Onward.trans (h : Onward r q) (ht : Onward q t) : Onward r t :=
  ⟨h.untouched.trans ht.untouched, ht.fits ∘ h.fits, h.found_grows.trans ht.found_grows,
    fun u hu => ht.discovered_mono u (h.discovered_mono u hu)⟩

theorem Spared.refl (u : g.Node) (r : Round g) : Spared u r r :=
  ⟨Onward.refl r, fun _ _ => le_rfl, le_rfl, rfl⟩

theorem Spared.trans (h : Spared u r q) (ht : Spared u q t) : Spared u r t :=
  ⟨h.toOnward.trans ht.toOnward, fun d hd => (h.residual_le d hd).trans (ht.residual_le d hd),
    h.added_le.trans ht.added_le, ht.staged_eq.trans h.staged_eq⟩

theorem Turn.onward (h : Turn sink v r q left label) : Onward r q :=
  ⟨h.untouched, h.fits, h.found_grows, h.discovered_mono⟩

theorem Turn.spared (h : Turn sink v r q left label) (hu : u ≠ v) : Spared u r q :=
  ⟨h.onward, h.le_others u hu, h.added_le u hu, by rw [h.staged_eq, if_neg hu]⟩

/-- The round just before a node takes its turn. -/
def eve (sink : g.Node) (vs : List g.Node) (r : Round g) (v : g.Node) : Round g :=
  sweep sink (vs.takeWhile (· ≠ v)) r

/-- The round just after a node has taken its turn. -/
def after (sink : g.Node) (vs : List g.Node) (r : Round g) (v : g.Node) : Round g :=
  (eve sink vs r v).discharge sink v

/-- In its turn a node sends along one of its darts. -/
structure Sends (sink : g.Node) (vs : List g.Node) (r : Round g) (v : g.Node) (d : g.DartOf) :
    Prop where
  mem : v ∈ vs
  mem_darts : d ∈ g.darts v
  residual_lt : g.residual (after sink vs r v).flow d < g.residual (eve sink vs r v).flow d

theorem sweep_append (sink : g.Node) (vs ws : List g.Node) (r : Round g) :
    sweep sink (vs ++ ws) r = sweep sink ws (sweep sink vs r) :=
  List.foldl_append

theorem eve_append_of_mem (hv : v ∈ vs) (ws : List g.Node) :
    eve sink (vs ++ ws) r v = eve sink vs r v := by
  rw [eve, eve, takeWhile_append_of_mem hv]

theorem eve_takeWhile (hprecedes : Precedes vs v w) :
    eve sink (vs.takeWhile (· ≠ w)) r v = eve sink vs r v := by
  have hdrop := List.takeWhile_append_dropWhile (p := (· ≠ w)) (l := vs)
  conv_rhs => rw [← hdrop, eve_append_of_mem hprecedes]

variable [IsOrderedAddMonoid K]

/-- The nodes that take turns in a round. -/
structure Lineup (r : Round g) (vs : List g.Node) : Prop where
  nodup : vs.Nodup
  active : ∀ v ∈ vs, r.IsActive v

omit [IsOrderedAddMonoid K] in
theorem Lineup.takeWhile (h : r.Lineup vs) (v : g.Node) : r.Lineup (vs.takeWhile (· ≠ v)) :=
  ⟨h.nodup.sublist (List.takeWhile_sublist _),
    fun w hw => h.active w (List.takeWhile_subset _ hw)⟩

omit [IsOrderedAddMonoid K] in
theorem Lineup.tail (h : r.Lineup (v :: vs)) (honward : Onward r q) : q.Lineup vs :=
  ⟨(List.nodup_cons.mp h.nodup).2,
    fun w hw => honward.untouched.isActive_iff.mpr (h.active w (List.mem_cons_of_mem v hw))⟩

section Turns

variable (sink) (hproper : g.Proper)

include hproper

theorem onward_sweep (h : r.Lineup vs) : Onward r (sweep sink vs r) := by
  induction vs generalizing r with
  | nil => exact Onward.refl r
  | cons v vs ih =>
      obtain ⟨hexcess, hlabel⟩ := h.active v List.mem_cons_self
      obtain ⟨left, label, hturn⟩ := turn_discharge hproper sink hlabel hexcess
      exact hturn.onward.trans (ih (h.tail hturn.onward))

theorem spared_sweep (h : r.Lineup vs) (hu : u ∉ vs) : Spared u r (sweep sink vs r) := by
  induction vs generalizing r with
  | nil => exact Spared.refl u r
  | cons v vs ih =>
      obtain ⟨hexcess, hlabel⟩ := h.active v List.mem_cons_self
      obtain ⟨left, label, hturn⟩ := turn_discharge hproper sink hlabel hexcess
      exact (hturn.spared (List.ne_of_not_mem_cons hu)).trans
        (ih (h.tail hturn.onward) (List.not_mem_of_not_mem_cons hu))

/-- A node that is not discovered was not sent anything. -/
theorem added_sweep (h : r.Lineup vs) (hu : u ∉ vs) (hsink : u ≠ sink)
    (hfound : (sweep sink vs r).discovered[u] ≠ true) :
    (sweep sink vs r).added[u] = r.added[u] := by
  induction vs generalizing r with
  | nil => rfl
  | cons v vs ih =>
      obtain ⟨hexcess, hlabel⟩ := h.active v List.mem_cons_self
      obtain ⟨left, label, hturn⟩ := turn_discharge hproper sink hlabel hexcess
      have htail := h.tail hturn.onward
      have hrest := onward_sweep sink hproper htail
      refine (ih htail (List.not_mem_of_not_mem_cons hu) hfound).trans ?_
      exact hturn.added_eq u (List.ne_of_not_mem_cons hu) hsink
        fun htrue => hfound (hrest.discovered_mono u htrue)

theorem spared_eve (h : r.Lineup vs) (v : g.Node) : Spared v r (eve sink vs r v) :=
  spared_sweep _ hproper (h.takeWhile v) (not_mem_takeWhile vs v)

theorem turn_of_mem (h : r.Lineup vs) (hv : v ∈ vs) :
    ∃ left label, Turn sink v (eve sink vs r v) (after sink vs r v) left label := by
  have hactive := (spared_eve sink hproper h v).untouched.isActive_iff.mpr (h.active v hv)
  exact turn_discharge hproper sink hactive.2 hactive.1

/-- The turns that come after the turn of a node. -/
theorem exists_rest (h : r.Lineup vs) (hv : v ∈ vs) :
    ∃ ws, (after sink vs r v).Lineup ws ∧ sweep sink vs r = sweep sink ws (after sink vs r v) ∧
      ∀ u, u = v ∨ u ∉ vs ∨ Precedes vs u v → u ∉ ws := by
  obtain ⟨left, label, hturn⟩ := turn_of_mem sink hproper h hv
  obtain ⟨ws, hws⟩ := exists_eq_takeWhile_append hv
  have hnodup := h.nodup
  rw [hws, List.nodup_append, List.nodup_cons] at hnodup
  obtain ⟨-, ⟨hself, hnodup⟩, hdisjoint⟩ := hnodup
  have hmem : ∀ w ∈ ws, w ∈ vs := fun w hw =>
    hws ▸ List.mem_append_right _ (List.mem_cons_of_mem v hw)
  have honward := (spared_eve sink hproper h v).toOnward.trans hturn.onward
  refine ⟨ws, ⟨hnodup, fun w hw => ?_⟩, ?_, fun u hu huw => ?_⟩
  · exact honward.untouched.isActive_iff.mpr (h.active w (hmem w hw))
  · conv_lhs => rw [hws, sweep_append]
    rfl
  · rcases hu with rfl | hu | hu
    · exact hself huw
    · exact hu (hmem u huw)
    · exact hdisjoint u hu u (List.mem_cons_of_mem v huw) rfl

theorem spared_rest (h : r.Lineup vs) (hv : v ∈ vs) (hu : u = v ∨ u ∉ vs ∨ Precedes vs u v) :
    Spared u (after sink vs r v) (sweep sink vs r) := by
  obtain ⟨ws, hlineup, hsweep, hnot⟩ := exists_rest sink hproper h hv
  rw [hsweep]
  exact spared_sweep _ hproper hlineup (hnot u hu)

/-- Between the turns of two nodes, both see only turns of others. -/
theorem spared_between (h : r.Lineup vs) (hprecedes : Precedes vs v w) (hu : u = v ∨ u = w) :
    Spared u (after sink vs r v) (eve sink vs r w) := by
  have hv : v ∈ vs.takeWhile (· ≠ w) := hprecedes
  rw [after, ← eve_takeWhile hprecedes]
  refine spared_rest _ hproper (h.takeWhile w) hv (hu.imp_right fun heq => Or.inl ?_)
  rw [heq]
  exact not_mem_takeWhile vs w

/-- The label that a node has reached in its turn stays staged. -/
theorem exists_turn (h : r.Lineup vs) (hv : v ∈ vs) :
    ∃ left, Turn sink v (eve sink vs r v) (after sink vs r v) left (sweep sink vs r).staged[v] := by
  obtain ⟨left, label, hturn⟩ := turn_of_mem sink hproper h hv
  have hstaged : (sweep sink vs r).staged[v] = label := by
    rw [(spared_rest _ hproper h hv (Or.inl rfl)).staged_eq, hturn.staged_eq, if_pos rfl]
  exact ⟨left, hstaged ▸ hturn⟩

theorem labels_eve (h : r.Lineup vs) (v : g.Node) : (eve sink vs r v).labels = r.labels :=
  (spared_eve _ hproper h v).untouched.labels_eq

theorem staged_bounds (h : r.Lineup vs) (hv : v ∈ vs) :
    r.labels[v] ≤ (sweep sink vs r).staged[v] ∧ (sweep sink vs r).staged[v] ≤ g.nodeCount := by
  obtain ⟨left, hturn⟩ := exists_turn sink hproper h hv
  have hlabel := hturn.label_ge
  rw [labels_eve _ hproper h] at hlabel
  exact ⟨hlabel, hturn.label_le⟩

/-- A node never spends more than it had at the start of the round. -/
theorem added_le_after (h : r.Lineup vs) (hv : v ∈ vs) :
    (eve sink vs r v).added[v] ≤ (after sink vs r v).added[v] + r.excess[v] := by
  obtain ⟨left, hturn⟩ := exists_turn sink hproper h hv
  rw [hturn.added_own, (spared_eve _ hproper h v).untouched.excess_eq, ← sub_nonneg]
  have hleft := hturn.left_nonneg
  have heq : (eve sink vs r v).added[v] - (r.excess[v] - left) + r.excess[v] -
      (eve sink vs r v).added[v] = left := by abel
  rwa [heq]

variable {sink}

/-! ## Sending -/

/-- What is known of a dart along which a node sends, in terms of the start of the round. -/
theorem Sends.sent (h : r.Lineup vs) (hsends : Sends sink vs r v d) :
    r.labels[v] ≤ r.labels[d.other] + 1 ∧ r.labels[d.other] + 1 < g.nodeCount ∧
      r.Fair sink v d ∧ (eve sink vs r v).added[d.other] < (after sink vs r v).added[d.other] ∧
      (d.other ≠ sink → (after sink vs r v).discovered[d.other] = true) := by
  obtain ⟨left, hturn⟩ := exists_turn sink hproper h hsends.mem
  have hsent := hturn.sent d hsends.mem_darts hsends.residual_lt
  have huntouched := (spared_eve sink hproper h v).untouched
  have hlabels := huntouched.labels_eq
  refine ⟨?_, ?_, huntouched.fair_iff.mp hsent.fair, hsent.added_lt, hsent.discovered⟩
  · rw [← hlabels]
    exact hsent.label_le
  · rw [← hlabels]
    exact hsent.label_lt

theorem sends_of_rest (h : r.Lineup vs) (hv : v ∈ vs)
    (hstaged : (sweep sink vs r).staged[v] = r.labels[v]) :
    ∃ d, Sends sink vs r v d ∧ r.labels[v] = r.labels[d.other] + 1 := by
  obtain ⟨left, hturn⟩ := exists_turn sink hproper h hv
  have hlabels := labels_eve sink hproper h v
  have hrest := hturn.rest
  rw [hlabels] at hrest
  obtain ⟨d, hd, hdown, hlt⟩ := (hrest hstaged).2
  exact ⟨d, ⟨hv, hd, hlt⟩, hdown⟩

theorem sends_of_saturated (h : r.Lineup vs) (hv : v ∈ vs)
    (hstaged : (sweep sink vs r).staged[v] = g.nodeCount) (hd : d ∈ g.darts v)
    (hopen : 0 < g.residual (eve sink vs r v).flow d)
    (hle : r.labels[v] ≤ r.labels[d.other] + 1) (hlt : r.labels[d.other] + 1 < g.nodeCount) :
    Sends sink vs r v d := by
  obtain ⟨left, hturn⟩ := exists_turn sink hproper h hv
  have hsaturated := hturn.saturated hstaged d hd
  rw [labels_eve _ hproper h] at hsaturated
  refine ⟨hv, hd, lt_of_le_of_lt ?_ hopen⟩
  by_contra hpos
  exact hlt.not_ge (hsaturated (not_le.mp hpos) hle)

theorem sends_of_down (h : r.Lineup vs) (hv : v ∈ vs) {as bs : List g.DartOf}
    (hdarts : g.darts v = as ++ d :: bs) (hdown : r.labels[v] = r.labels[d.other] + 1)
    (hopen : 0 < g.residual (eve sink vs r v).flow d) :
    ∃ e ∈ as ++ [d], Sends sink vs r v e ∧ r.labels[v] = r.labels[e.other] + 1 := by
  obtain ⟨left, hturn⟩ := exists_turn sink hproper h hv
  have hused := hturn.used as bs d hdarts
  rw [labels_eve _ hproper h] at hused
  obtain ⟨e, he, hexact, hlt⟩ := hused hdown hopen
  refine ⟨e, he, ⟨hv, ?_, hlt⟩, hexact⟩
  rw [hdarts]
  rcases List.mem_append.mp he with he | he
  · exact List.mem_append_left _ he
  · exact List.mem_append_right _ (List.mem_singleton.mp he ▸ List.mem_cons_self)

/-- What a node has sent can be sent back: at once, and until the other end has its turn. -/
theorem Sends.opposite (h : r.Lineup vs) (hsends : Sends sink vs r v d) (hfits : g.Fits r.flow)
    {e : g.DartOf} (harc : e.arc = d.arc) (hreversed : e.reversed = !d.reversed) :
    0 < g.residual (after sink vs r v).flow e := by
  have hnonneg := ((spared_eve sink hproper h v).fits hfits).residual_nonneg e
  have hbefore := FlowGraph.residual_add_opposite (eve sink vs r v).flow harc hreversed
  have hafter := FlowGraph.residual_add_opposite (after sink vs r v).flow harc hreversed
  by_contra hpos
  have hlt := add_lt_add_of_lt_of_le hsends.residual_lt ((not_lt.mp hpos).trans hnonneg)
  exact hlt.ne (hafter.trans hbefore.symm)

/-! ## Receiving -/

/-- What a node receives is on top of what it does not spend. -/
theorem Sends.added_lt (h : r.Lineup vs) (hsends : Sends sink vs r v d) :
    r.added[d.other] < (sweep sink vs r).added[d.other] +
      if d.other ∈ vs then r.excess[d.other] else 0 := by
  have hne : d.other ≠ v := hproper.other_ne hsends.mem_darts
  have hreceives := (hsends.sent hproper h).2.2.2.1
  split
  next hu =>
    have hspends := added_le_after sink hproper h hu
    rcases precedes_or_precedes hu hne with hbefore | hbehind
    · -- the node has had its turn when it receives
      have hrest := spared_rest sink hproper h hsends.mem (Or.inr (Or.inr hbefore))
      have hkeeps : (after sink vs r d.other).added[d.other] <
          (sweep sink vs r).added[d.other] :=
        (spared_between _ hproper h hbefore (Or.inl rfl)).added_le.trans_lt
          (hreceives.trans_le hrest.added_le)
      exact ((spared_eve _ hproper h _).added_le.trans hspends).trans_lt (add_lt_add_left hkeeps _)
    · -- it receives before its turn, in which it spends no more than it had
      have hnot : d.other ∉ vs.takeWhile (· ≠ v) := hbehind.not_precedes hu
      have hgains : r.added[d.other] < (eve sink vs r d.other).added[d.other] :=
        (spared_sweep _ hproper (h.takeWhile v) hnot).added_le.trans_lt
          (hreceives.trans_le (spared_between _ hproper h hbehind (Or.inr rfl)).added_le)
      have hrest := spared_rest sink hproper h hu (Or.inl rfl)
      exact hgains.trans_le (hspends.trans (add_le_add_left hrest.added_le _))
  next hu =>
    -- it has no turn in this round
    have hnot : d.other ∉ vs.takeWhile (· ≠ v) := fun hmem =>
      hu (List.takeWhile_subset _ hmem)
    have hrest := spared_rest sink hproper h hsends.mem (Or.inr (Or.inl hu))
    rw [add_zero]
    exact (spared_sweep _ hproper (h.takeWhile v) hnot).added_le.trans_lt
      (hreceives.trans_le hrest.added_le)

/-- A node without a place in the next round has spent what it had. -/
theorem excess_of_unfound (h : r.Lineup vs) (hv : v ∈ vs) (hsink : v ≠ sink)
    (hfound : (sweep sink vs r).discovered[v] ≠ true)
    (hstaged : (sweep sink vs r).staged[v] < g.nodeCount) :
    r.excess[v] + (sweep sink vs r).added[v] ≤ r.added[v] := by
  obtain ⟨left, hturn⟩ := exists_turn sink hproper h hv
  obtain ⟨ws, hlineup, hsweep, hnot⟩ := exists_rest sink hproper h hv
  have hafter : (after sink vs r v).discovered[v] ≠ true := fun htrue =>
    hfound ((spared_rest _ hproper h hv (Or.inl rfl)).discovered_mono v htrue)
  have heve : (eve sink vs r v).discovered[v] ≠ true := fun htrue =>
    hafter (hturn.discovered_mono v htrue)
  have hleft : left ≤ 0 := not_lt.mp fun hpos => hafter (hturn.stays hpos hstaged)
  have hbefore : (eve sink vs r v).added[v] = r.added[v] :=
    added_sweep _ hproper (h.takeWhile v) (not_mem_takeWhile vs v) hsink heve
  have hbehind : (sweep sink vs r).added[v] = (after sink vs r v).added[v] := by
    rw [hsweep] at hfound ⊢
    exact added_sweep _ hproper hlineup (hnot v (Or.inl rfl)) hsink hfound
  rw [hbehind, hturn.added_own, hbefore, (spared_eve _ hproper h v).untouched.excess_eq]
  have heq : r.excess[v] + (r.added[v] - (r.excess[v] - left)) = r.added[v] + left := by abel
  rw [heq]
  exact add_le_of_nonpos_right hleft

omit hproper [IsOrderedAddMonoid K] in
/-- What is discovered in a round is discovered in the turn of some node. -/
theorem exists_discovery (hnodup : vs.Nodup) (hstart : r.discovered[u] ≠ true)
    (hfound : (sweep sink vs r).discovered[u] = true) :
    ∃ v ∈ vs, (eve sink vs r v).discovered[u] ≠ true ∧
      (after sink vs r v).discovered[u] = true := by
  induction vs generalizing r with
  | nil => exact absurd hfound hstart
  | cons v vs ih =>
      by_cases hfirst : (r.discharge sink v).discovered[u] = true
      · have heve : eve sink (v :: vs) r v = r := by
          rw [eve, List.takeWhile_cons_of_neg (by simp)]
          rfl
        refine ⟨v, List.mem_cons_self, ?_, ?_⟩
        · rwa [heve]
        · rwa [after, heve]
      · obtain ⟨hv, hnodup⟩ := List.nodup_cons.mp hnodup
        obtain ⟨w, hw, hrest⟩ := ih hnodup hfirst hfound
        have heve : eve sink (v :: vs) r w = eve sink vs (r.discharge sink v) w := by
          rw [eve, List.takeWhile_cons_of_pos (by simpa using fun heq : v = w => hv (heq ▸ hw))]
          rfl
        refine ⟨w, List.mem_cons_of_mem v hw, ?_⟩
        rwa [after, heve]

/-- A node is discovered if it keeps excess at a label below the sentinel, or is sent some. -/
theorem found_by_sweep (h : r.Lineup vs) (hstart : r.discovered[u] ≠ true)
    (hfound : (sweep sink vs r).discovered[u] = true) :
    (u ∈ vs ∧ r.labels[u] < (sweep sink vs r).staged[u] ∧
        (sweep sink vs r).staged[u] < g.nodeCount) ∨
      ∃ v d, Sends sink vs r v d ∧ d.other = u := by
  obtain ⟨v, hv, heve, hafter⟩ := exists_discovery h.nodup hstart hfound
  obtain ⟨left, hturn⟩ := exists_turn sink hproper h hv
  rcases hturn.found_by u hafter with hold | ⟨rfl, hleft, hlt⟩ | ⟨d, hd, hother, hused⟩
  · exact absurd hold heve
  · refine Or.inl ⟨hv, lt_of_le_of_ne (staged_bounds _ hproper h hv).1 fun heq => ?_, hlt⟩
    have hrest := (hturn.rest (by rw [labels_eve _ hproper h]; exact heq.symm)).1
    exact hrest.not_gt hleft
  · exact Or.inr ⟨v, d, ⟨hv, hd, hused⟩, hother⟩

/-- A node that reaches the sentinel, and is sent something only after its turn, is not
discovered by then. -/
theorem not_discovered_after (h : r.Lineup vs) (hv : v ∈ vs) (hstart : r.discovered[v] ≠ true)
    (hstaged : (sweep sink vs r).staged[v] = g.nodeCount)
    (hbehind : ∀ w d, Sends sink vs r w d → d.other = v → Precedes vs v w) :
    (after sink vs r v).discovered[v] ≠ true := by
  intro hfound
  obtain ⟨left, hturn⟩ := exists_turn sink hproper h hv
  rcases hturn.found_by v hfound with heve | ⟨-, -, hlt⟩ | ⟨d, hd, hother, -⟩
  · rcases found_by_sweep hproper (h.takeWhile v) hstart heve with
      ⟨hmem, -⟩ | ⟨w, d, hsends, hother⟩
    · exact not_mem_takeWhile vs v hmem
    · have hprecedes : Precedes vs w v := hsends.mem
      have hlt := hsends.residual_lt
      rw [after, eve_takeWhile hprecedes] at hlt
      have hback := hbehind w d ⟨hprecedes.mem, hsends.mem_darts, hlt⟩ hother
      exact hprecedes.not_precedes hv hback
  · exact hlt.ne hstaged
  · exact hproper.other_ne hd hother

end Turns

end Round

end PushRelabel
