import PushRelabel.Proofs.Pass.Held

/-! # What a discharge in a round does

A node sends only along its own darts, so in the discharge of one node the darts of the
others admit no less than before. It sends one label down, counted from the label that it has
reached by then, and only where the other end has no claim. It comes to a rest with no
excess, or with a dart that was left to its other end, or with all darts below the sentinel
saturated. The first dart that leads down from its own label is always used.
-/

namespace PushRelabel.Round

section Discovery

variable {K : Type} {g : FlowGraph K}

theorem discovered_discover (r : Round g) (v u : g.Node) :
    (r.discover v).discovered[u] = true ↔ r.discovered[u] = true ∨ u = v := by
  unfold discover
  split
  next hv =>
    refine (or_iff_left_of_imp ?_).symm
    rintro rfl
    exact hv
  next =>
    rw [Vector.getElem_put]
    by_cases hu : u = v <;> simp [hu]

theorem added_discover (r : Round g) (v : g.Node) : (r.discover v).added = r.added := by
  unfold discover
  split <;> rfl

theorem staged_discover (r : Round g) (v : g.Node) : (r.discover v).staged = r.staged := by
  unfold discover
  split <;> rfl

theorem found_grows_discover (r : Round g) (v : g.Node) :
    r.found.toList <+: (r.discover v).found.toList := by
  rw [found_discover]
  split
  · exact List.prefix_rfl
  · exact List.prefix_append _ _

variable [Quantity K]

theorem discovered_send (s : Scan g) (sink : g.Node) (d : g.DartOf) (u : g.Node) :
    (s.send sink d).round.discovered[u] = true ↔
      s.round.discovered[u] = true ∨ u = d.other ∧ d.other ≠ sink := by
  unfold Scan.send
  dsimp only
  split
  next hsink => exact (or_iff_left fun h => h.2 hsink).symm
  next hsink =>
    rw [discovered_discover, and_iff_left hsink]
    rfl

theorem staged_send (s : Scan g) (sink : g.Node) (d : g.DartOf) :
    (s.send sink d).round.staged = s.round.staged := by
  unfold Scan.send discover
  dsimp only
  split
  · rfl
  · split <;> rfl

theorem discovered_spend (r : Round g) (v : g.Node) (sent : K) :
    (r.spend v sent).discovered = r.discovered := by
  unfold spend
  split <;> rfl

theorem staged_spend (r : Round g) (v : g.Node) (sent : K) :
    (r.spend v sent).staged = r.staged := by
  unfold spend
  split <;> rfl

theorem added_spend_of_ne (r : Round g) {u v : g.Node} (hu : u ≠ v) (sent : K) :
    (r.spend v sent).added[u] = r.added[u] := by
  unfold spend
  split
  · rw [add, Vector.getElem_put, if_neg hu]
  · rfl

theorem staged_climb (sink v : g.Node) (label : Nat) (left : K) (r : Round g) :
    (climb sink v label left r).1.staged = r.staged := by
  have hsend : KeptByClimbing sink v label fun q _ => q.staged = r.staged :=
    fun _ _ _ s d _ h => (staged_send s sink d).trans h
  exact hsend.climb left rfl

/-- A discharge stages the label that the node has reached. -/
theorem staged_discharge (sink v : g.Node) (r : Round g) :
    (r.discharge sink v).staged =
      r.staged.put v (climb sink v r.labels[v] r.excess[v] r).2.2 := by
  rw [← staged_climb sink v r.labels[v] r.excess[v] r]
  rcases hclimb : climb sink v r.labels[v] r.excess[v] r with ⟨c, left, label⟩
  rw [discharge_eq hclimb]
  split
  · rw [staged_discover, staged_spend]
    rfl
  · rw [staged_spend]
    rfl

theorem found_grows_send (s : Scan g) (sink : g.Node) (d : g.DartOf) :
    s.round.found.toList <+: (s.send sink d).round.found.toList := by
  unfold Scan.send
  dsimp only
  split
  · exact List.prefix_rfl
  · rw [discover_add]
    exact found_grows_discover
      { s.round with
        flow := g.push s.round.flow d (Quantity.least s.left (g.residual s.round.flow d)) } d.other

end Discovery

variable {K : Type} [AddCommGroup K] [LinearOrder K] {g : FlowGraph K} {sink v : g.Node}
  {r q : Round g}

/-! ## Sending -/

/-- What is known of a dart along which a node has sent. -/
structure Sent (sink v : g.Node) (r q : Round g) (d : g.DartOf) : Prop where
  label_le : r.labels[v] ≤ r.labels[d.other] + 1
  label_lt : r.labels[d.other] + 1 < g.nodeCount
  fair : r.Fair sink v d
  added_lt : r.added[d.other] < q.added[d.other]
  discovered : d.other ≠ sink → q.discovered[d.other] = true

/-- What a node has done to a round by sending along its darts. -/
structure Outflow (sink v : g.Node) (r q : Round g) : Prop where
  untouched : r.Untouched q
  fits : g.Fits r.flow → g.Fits q.flow
  own_le : ∀ d ∈ g.darts v, g.residual q.flow d ≤ g.residual r.flow d
  le_others : ∀ u : g.Node, u ≠ v → ∀ d ∈ g.darts u,
    g.residual r.flow d ≤ g.residual q.flow d
  staged_eq : q.staged = r.staged
  added_own : q.added[v] = r.added[v]
  added_le : ∀ u : g.Node, r.added[u] ≤ q.added[u]
  added_eq : ∀ u : g.Node, u ≠ sink → q.discovered[u] ≠ true → q.added[u] = r.added[u]
  discovered_mono : ∀ u : g.Node, r.discovered[u] = true → q.discovered[u] = true
  found_grows : r.found.toList <+: q.found.toList
  sent : ∀ d ∈ g.darts v, g.residual q.flow d < g.residual r.flow d → Sent sink v r q d
  found_by : ∀ u : g.Node, q.discovered[u] = true →
    r.discovered[u] = true ∨ ∃ d ∈ g.darts v, d.other = u ∧
      g.residual q.flow d < g.residual r.flow d

theorem outflow_refl (sink v : g.Node) (r : Round g) : Outflow sink v r r :=
  ⟨⟨rfl, rfl, rfl, rfl, rfl, rfl⟩, id, fun _ _ => le_rfl, fun _ _ _ _ => le_rfl, rfl, rfl,
    fun _ => le_rfl, fun _ _ _ => rfl, fun _ h => h, List.prefix_rfl,
    fun _ _ h => absurd h (lt_irrefl _), fun _ h => Or.inl h⟩

variable [IsOrderedAddMonoid K]

/-- A dart admits no less after its opposite was used, and the others are not affected. -/
theorem le_residual_push {flow : g.Flow} {u : g.Node} {d e : g.DartOf} {a : K} (ha : 0 ≤ a)
    (hd : d ∈ g.darts v) (he : e ∈ g.darts u) (hne : u ≠ v) :
    g.residual flow e ≤ g.residual (g.push flow d a) e := by
  rw [FlowGraph.residual_push]
  by_cases harc : e.arc = d.arc
  · have hreversed : e.reversed ≠ d.reversed := fun hsame =>
      hne (g.node_eq_of_same hd he harc hsame)
    rw [if_pos harc, if_neg hreversed]
    exact le_add_of_nonneg_right ha
  · rw [if_neg harc, add_zero]

omit [IsOrderedAddMonoid K] in
/-- A node sees its other darts unchanged. -/
theorem residual_push_own (hproper : g.Proper) {flow : g.Flow} {d e : g.DartOf} {a : K}
    (hd : d ∈ g.darts v) (he : e ∈ g.darts v) :
    g.residual (g.push flow d a) e = g.residual flow e - if e = d then a else 0 := by
  rw [FlowGraph.residual_push]
  by_cases harc : e.arc = d.arc
  · obtain rfl := hproper.dart_eq hd he harc
    rw [if_pos rfl, if_pos rfl, if_pos rfl, sub_eq_add_neg]
  · have hne : e ≠ d := fun heq => harc (heq ▸ rfl)
    rw [if_neg harc, if_neg hne, add_zero, sub_zero]

omit [IsOrderedAddMonoid K] in
/-- Sending along a dart the node lets less through it, and more through its opposite. -/
theorem residual_send (hproper : g.Proper) (s : Scan g) (sink : g.Node) {d e : g.DartOf}
    (hd : d ∈ g.darts v) (he : e ∈ g.darts v) :
    g.residual (s.send sink d).round.flow e = g.residual s.round.flow e -
      if e = d then min s.left (g.residual s.round.flow d) else 0 := by
  rw [flow_send]
  exact residual_push_own hproper hd he

/-- Sending along one dart, the node lets no more through any of its darts. -/
theorem Scan.Admits.residual_send_le {s : Scan g} {label : Nat} {d e : g.DartOf}
    (h : s.Admits sink v label d) (hproper : g.Proper) (he : e ∈ g.darts v) :
    g.residual (s.send sink d).round.flow e ≤ g.residual s.round.flow e := by
  rw [residual_send hproper s sink h.mem_darts he]
  split
  · exact sub_le_self _ h.amount_pos.le
  · rw [sub_zero]

/-- Sending along a dart takes from it. -/
theorem Scan.Admits.residual_send_lt {s : Scan g} {label : Nat} {d : g.DartOf}
    (h : s.Admits sink v label d) (hproper : g.Proper) :
    g.residual (s.send sink d).round.flow d < g.residual s.round.flow d := by
  rw [residual_send hproper s sink h.mem_darts h.mem_darts, if_pos rfl]
  exact sub_lt_self _ h.amount_pos

omit [IsOrderedAddMonoid K] in
/-- What is known of a dart stays true while nothing is taken back from its other end. -/
theorem Sent.mono {q' : Round g} {d : g.DartOf} (h : Sent sink v r q d)
    (hadded : q.added[d.other] ≤ q'.added[d.other])
    (hdiscovered : ∀ u : g.Node, q.discovered[u] = true → q'.discovered[u] = true) :
    Sent sink v r q' d :=
  ⟨h.label_le, h.label_lt, h.fair, h.added_lt.trans_le hadded,
    fun hsink => hdiscovered d.other (h.discovered hsink)⟩

namespace Outflow

variable {s : Scan g} {next : Nat} {d : g.DartOf}

/-- The dart that is used now was admissible from the start. -/
theorem sent_send (h : Outflow sink v r s.round) (hadmits : s.Admits sink v next d)
    (hle : r.labels[v] ≤ next) (hlt : next < g.nodeCount) :
    Sent sink v r (s.send sink d).round d := by
  have hother : next = r.labels[d.other] + 1 := h.untouched.labels_eq ▸ hadmits.label_eq
  refine ⟨hother ▸ hle, hother ▸ hlt, h.untouched.fair_iff.mp hadmits.fair, ?_, fun hsink => ?_⟩
  · refine (h.added_le d.other).trans_lt ?_
    rw [added_send, if_pos rfl]
    exact lt_add_of_pos_right _ hadmits.amount_pos
  · exact (discovered_send s sink d _).mpr (Or.inr ⟨rfl, hsink⟩)

theorem send (h : Outflow sink v r s.round) (hproper : g.Proper)
    (hadmits : s.Admits sink v next d) (hle : r.labels[v] ≤ next) (hlt : next < g.nodeCount) :
    Outflow sink v r (s.send sink d).round := by
  have hd := hadmits.mem_darts
  have hless : ∀ e ∈ g.darts v,
      g.residual (s.send sink d).round.flow e ≤ g.residual s.round.flow e :=
    fun e he => hadmits.residual_send_le hproper he
  have hmono : ∀ u : g.Node, s.round.discovered[u] = true →
      (s.send sink d).round.discovered[u] = true :=
    fun u hu => (discovered_send s sink d u).mpr (Or.inl hu)
  refine
    { untouched := h.untouched.trans (untouched_send s sink d)
      fits := fun hfits => ?fits
      own_le := fun e he => (hless e he).trans (h.own_le e he)
      le_others := fun u hu e he => (h.le_others u hu e he).trans ?others
      staged_eq := (staged_send s sink d).trans h.staged_eq
      added_own := ?own
      added_le := fun u => (h.added_le u).trans (hadmits.added_le_send u)
      added_eq := fun u hsink hu => ?unheard
      discovered_mono := fun u hu => hmono u (h.discovered_mono u hu)
      found_grows := h.found_grows.trans (found_grows_send s sink d)
      sent := fun e he hused => ?sent
      found_by := fun u hu => ?found }
  case fits =>
    rw [flow_send]
    exact (h.fits hfits).push hadmits.amount_pos.le (min_le_right _ _)
  case others =>
    rw [flow_send]
    exact le_residual_push hadmits.amount_pos.le hd he hu
  case own =>
    rw [added_send, if_neg (hproper.other_ne hd).symm, add_zero]
    exact h.added_own
  case unheard =>
    rw [Ne, discovered_send, not_or] at hu
    -- only the other end receives, and it is found then, unless it is the sink
    rw [added_send, if_neg fun heq => hu.2 ⟨heq, heq ▸ hsink⟩, add_zero]
    exact h.added_eq u hsink hu.1
  case sent =>
    by_cases heq : e = d
    · rw [heq]
      exact h.sent_send hadmits hle hlt
    · rw [residual_send hproper s sink hd he, if_neg heq, sub_zero] at hused
      exact (h.sent e he hused).mono (hadmits.added_le_send _) hmono
  case found =>
    rcases (discovered_send s sink d u).mp hu with hold | ⟨rfl, -⟩
    · refine (h.found_by u hold).imp_right ?_
      rintro ⟨e, he, hother, hused⟩
      exact ⟨e, he, hother, (hless e he).trans_lt hused⟩
    · have hused := hadmits.residual_send_lt hproper
      exact Or.inr ⟨d, hd, rfl, hused.trans_le (h.own_le d hd)⟩

end Outflow

theorem keptByClimbing_outflow (hproper : g.Proper) (sink v : g.Node) (r : Round g)
    (hlabel : r.labels[v] < g.nodeCount) :
    KeptByClimbing sink v r.labels[v] fun q _ => Outflow sink v r q :=
  fun _ hle hlt _ _ hadmits h => h.send hproper hadmits hle (hlt hlabel)

/-! ## Scans -/

/-- How far a scan of the darts of a node has come, seen from an earlier stage of it. -/
structure Scan.Later (v : g.Node) (s t : Scan g) : Prop where
  own_le : ∀ d ∈ g.darts v, g.residual t.round.flow d ≤ g.residual s.round.flow d
  labels_eq : t.round.labels = s.round.labels
  excess_eq : t.round.excess = s.round.excess
  left_le : t.left ≤ s.left
  next_le : t.next ≤ s.next
  skipped_mono : s.skipped = true → t.skipped = true

namespace Scan

omit [IsOrderedAddMonoid K] in
theorem later_refl (v : g.Node) (s : Scan g) : s.Later v s :=
  ⟨fun _ _ => le_rfl, rfl, rfl, le_rfl, le_rfl, id⟩

omit [IsOrderedAddMonoid K] in
theorem Later.trans {s t u : Scan g} (h : s.Later v t) (hu : t.Later v u) : s.Later v u :=
  ⟨fun d hd => (hu.own_le d hd).trans (h.own_le d hd), hu.labels_eq.trans h.labels_eq,
    hu.excess_eq.trans h.excess_eq, hu.left_le.trans h.left_le, hu.next_le.trans h.next_le,
    fun hs => hu.skipped_mono (h.skipped_mono hs)⟩

variable {s t : Scan g} {label : Nat} {d : g.DartOf}

theorem Looks.later (h : s.Looks sink v label d t) (hproper : g.Proper) : s.Later v t := by
  cases h with
  | passes => exact later_refl v s
  | skips => exact ⟨fun _ _ => le_rfl, rfl, rfl, le_rfl, le_rfl, fun _ => rfl⟩
  | sends h =>
      have huntouched := untouched_send s sink d
      exact ⟨fun e he => h.residual_send_le hproper he, huntouched.labels_eq,
        huntouched.excess_eq, h.left_send_le, le_rfl, id⟩
  | notes => exact ⟨fun _ _ => le_rfl, rfl, rfl, le_rfl, min_le_left _ _, id⟩

theorem later_foldl_visit (hproper : g.Proper) (sink : g.Node) (label : Nat) {ds : List g.DartOf}
    (hds : ∀ d ∈ ds, d ∈ g.darts v) (s : Scan g) :
    s.Later v (ds.foldl (Scan.visit sink v label) s) := by
  induction ds generalizing s with
  | nil => exact later_refl v s
  | cons d ds ih =>
      have hd := hds d List.mem_cons_self
      exact ((s.looks_visit sink label hd).later hproper).trans
        (ih (fun e he => hds e (List.mem_cons_of_mem d he)) _)

/-- What a scan does is to send along darts that lead to the next label below. -/
theorem used_of_foldl_visit (hproper : g.Proper) {ds : List g.DartOf}
    (hds : ∀ d ∈ ds, d ∈ g.darts v) (s : Scan g)
    (ht : ds.foldl (Scan.visit sink v label) s = t) :
    (t.round = s.round ∧ t.left = s.left) ∨
      ∃ d ∈ ds, label = s.round.labels[d.other] + 1 ∧
        g.residual t.round.flow d < g.residual s.round.flow d := by
  induction ds generalizing s with
  | nil => exact Or.inl ⟨ht ▸ rfl, ht ▸ rfl⟩
  | cons d ds ih =>
      have hd := hds d List.mem_cons_self
      have hrest : ∀ e ∈ ds, e ∈ g.darts v := fun e he => hds e (List.mem_cons_of_mem d he)
      have hlooks := s.looks_visit sink label hd
      have hlater := later_foldl_visit hproper sink label hrest (s.visit sink v label d)
      rw [List.foldl_cons] at ht
      rw [ht] at hlater
      have hfirst := hlooks.later hproper
      rcases ih hrest _ ht with ⟨hround, hleft⟩ | ⟨e, he, hlabel, hlt⟩
      · -- the rest of the scan sends nothing, so only the first dart can have been used
        generalize s.visit sink v label d = r at *
        cases hlooks with
        | passes => exact Or.inl ⟨hround, hleft⟩
        | skips => exact Or.inl ⟨hround, hleft⟩
        | sends hadmits =>
            refine Or.inr ⟨d, List.mem_cons_self, hadmits.label_eq, ?_⟩
            exact (hlater.own_le d hd).trans_lt (hadmits.residual_send_lt hproper)
        | notes => exact Or.inl ⟨hround, hleft⟩
      · refine Or.inr ⟨e, List.mem_cons_of_mem d he, ?_, ?_⟩
        · rw [hlabel, hfirst.labels_eq]
        · exact hlt.trans_le (hfirst.own_le e (hrest e he))

/-- The first dart that leads down from the label of the node is used, if none before it is. -/
theorem used_of_eligible (hproper : g.Proper) {as bs : List g.DartOf}
    (hds : ∀ e ∈ as ++ d :: bs, e ∈ g.darts v) (s : Scan g)
    (ht : (as ++ d :: bs).foldl (Scan.visit sink v label) s = t) (hleft : 0 < s.left)
    (hown : s.round.labels[v] = label) (hlabel : label = s.round.labels[d.other] + 1)
    (hlt : label < g.nodeCount) (hresidual : 0 < g.residual s.round.flow d) :
    ∃ e ∈ as ++ [d], label = s.round.labels[e.other] + 1 ∧
      g.residual t.round.flow e < g.residual s.round.flow e := by
  have has : ∀ e ∈ as, e ∈ g.darts v := fun e he => hds e (List.mem_append_left _ he)
  have hd : d ∈ g.darts v := hds d (List.mem_append_right _ List.mem_cons_self)
  have hbs : ∀ e ∈ bs, e ∈ g.darts v := fun e he =>
    hds e (List.mem_append_right _ (List.mem_cons_of_mem d he))
  rw [List.foldl_append, List.foldl_cons] at ht
  have hfirst := later_foldl_visit hproper sink label has s
  have hrest := later_foldl_visit hproper sink label hbs
    ((as.foldl (Scan.visit sink v label) s).visit sink v label d)
  rw [ht] at hrest
  have hlooks := (as.foldl (Scan.visit sink v label) s).looks_visit sink label hd
  rcases used_of_foldl_visit hproper has s rfl with ⟨hround, heq⟩ | ⟨e, he, hdown, hused⟩
  · -- nothing was sent before the dart, which therefore still admits flow
    generalize as.foldl (Scan.visit sink v label) s = r at *
    generalize r.visit sink v label d = q at *
    refine ⟨d, List.mem_append_right _ (List.mem_singleton.mpr rfl), hlabel, ?_⟩
    cases hlooks with
    | passes h =>
        rw [heq, hround] at h
        rcases h with h | h | h | h
        · exact absurd h hleft.not_ge
        · omega
        · exact absurd h hresidual.not_ge
        · omega
    | skips _ hclaim =>
        refine absurd (Or.inr (Or.inr (Or.inl ?_))) hclaim
        rw [hround, hown]
        exact hlabel
    | sends h =>
        rw [← hround]
        exact (hrest.own_le d hd).trans_lt (h.residual_send_lt hproper)
    | notes h =>
        rw [hround] at h
        omega
  · refine ⟨e, List.mem_append_left _ he, hdown, ?_⟩
    have hown := (hlooks.later hproper).trans hrest
    exact (hown.own_le e (has e he)).trans_lt hused

/-- At the label of the node itself no dart is left to its other end. -/
theorem skipped_foldl_visit (hproper : g.Proper) {ds : List g.DartOf}
    (hds : ∀ d ∈ ds, d ∈ g.darts v) (s : Scan g) (hown : s.round.labels[v] = label)
    (hskipped : s.skipped = false) :
    (ds.foldl (Scan.visit sink v label) s).skipped = false := by
  induction ds generalizing s with
  | nil => exact hskipped
  | cons d ds ih =>
      have hd := hds d List.mem_cons_self
      have hlooks := s.looks_visit sink label hd
      have hlater := hlooks.later hproper
      refine ih (fun e he => hds e (List.mem_cons_of_mem d he)) _ ?_ ?_
      · rw [hlater.labels_eq]
        exact hown
      · generalize s.visit sink v label d = t at *
        cases hlooks with
        | passes => exact hskipped
        | skips hlabel hclaim => exact absurd (Or.inr (Or.inr (Or.inl (hown.trans hlabel)))) hclaim
        | sends => exact hskipped
        | notes => exact hskipped

/-- A scan that leaves excess, and no dart to its other end, saturates the darts that lead to
the next label below; it notes the labels at which the darts to higher nodes admit flow. -/
theorem next_le_of_foldl_visit (hproper : g.Proper) {ds : List g.DartOf}
    (hds : ∀ d ∈ ds, d ∈ g.darts v) (s : Scan g)
    (ht : ds.foldl (Scan.visit sink v label) s = t) (hleft : 0 < t.left)
    (hskipped : t.skipped = false) (hd : d ∈ ds) (hresidual : 0 < g.residual t.round.flow d)
    (hlabel : label ≤ s.round.labels[d.other] + 1)
    (hother : s.round.labels[d.other] < g.nodeCount) :
    t.next ≤ s.round.labels[d.other] + 1 := by
  induction ds generalizing s with
  | nil => exact absurd hd List.not_mem_nil
  | cons e ds ih =>
      have he := hds e List.mem_cons_self
      have hrest : ∀ e ∈ ds, e ∈ g.darts v := fun f hf => hds f (List.mem_cons_of_mem e hf)
      have hlooks := s.looks_visit sink label he
      have hfirst := hlooks.later hproper
      have hlater := later_foldl_visit hproper sink label hrest (s.visit sink v label e)
      rw [List.foldl_cons] at ht
      rw [ht] at hlater
      rcases List.mem_cons.mp hd with rfl | hd
      · generalize s.visit sink v label d = r at *
        have hopen := hresidual.trans_le (hlater.own_le d he)
        cases hlooks with
        | passes h =>
            rcases h with h | h | h | h
            · exact absurd h (hleft.trans_le hlater.left_le).not_ge
            · omega
            · exact absurd h hopen.not_ge
            · omega
        | skips => exact absurd (hlater.skipped_mono rfl) (by simp [hskipped])
        | sends h =>
            -- the dart took all that it could take, since some excess is left
            have hpos := hleft.trans_le hlater.left_le
            rw [left_send, sub_pos, min_lt_iff, or_iff_right (lt_irrefl _)] at hpos
            rw [residual_send hproper s sink he he, if_pos rfl, min_eq_right hpos.le, sub_self]
              at hopen
            exact absurd hopen (lt_irrefl _)
        | notes => exact hlater.next_le.trans (min_le_right _ _)
      · have hlabels := hfirst.labels_eq
        have hnext := ih hrest _ ht hd (by rw [hlabels]; exact hlabel)
          (by rw [hlabels]; exact hother)
        rwa [hlabels] at hnext

omit [IsOrderedAddMonoid K] in
theorem lt_next_foldl_visit {ds : List g.DartOf} (hds : ∀ d ∈ ds, d ∈ g.darts v) (s : Scan g)
    (hnext : label < s.next) : label < (ds.foldl (Scan.visit sink v label) s).next := by
  induction ds generalizing s with
  | nil => exact hnext
  | cons d ds ih =>
      refine ih (fun e he => hds e (List.mem_cons_of_mem d he)) _ ?_
      have hlooks := s.looks_visit sink label (hds d List.mem_cons_self)
      generalize s.visit sink v label d = t at *
      cases hlooks with
      | passes => exact hnext
      | skips => exact hnext
      | sends => exact hnext
      | notes hle => exact lt_min hnext (Nat.lt_succ_of_le hle)

end Scan

/-! ## Climbs -/

section Climb

variable {label : Nat} {left : K}

theorem later_scan (hproper : g.Proper) (sink v : g.Node) (label : Nat) (left : K) (r : Round g) :
    Scan.Later v ⟨r, left, g.nodeCount, false⟩ (scan sink v label left r) :=
  Scan.later_foldl_visit hproper sink label (fun _ hd => hd) _

omit [IsOrderedAddMonoid K] in
theorem lt_next_scan (hlabel : label < g.nodeCount) :
    label < (scan sink v label left r).next :=
  Scan.lt_next_foldl_visit (fun _ hd => hd) _ hlabel

theorem used_of_scan (hproper : g.Proper) (sink v : g.Node) (label : Nat) (left : K)
    (r : Round g) :
    ((scan sink v label left r).round = r ∧ (scan sink v label left r).left = left) ∨
      ∃ d ∈ g.darts v, label = r.labels[d.other] + 1 ∧
        g.residual (scan sink v label left r).round.flow d < g.residual r.flow d :=
  Scan.used_of_foldl_visit hproper (fun _ hd => hd) ⟨r, left, g.nodeCount, false⟩ rfl

theorem next_le_scan (hproper : g.Proper)
    (hgoes : ¬ ((scan sink v label left r).left ≤ 0 ∨ (scan sink v label left r).skipped = true))
    {d : g.DartOf} (hd : d ∈ g.darts v)
    (hresidual : 0 < g.residual (scan sink v label left r).round.flow d)
    (hlabel : label ≤ r.labels[d.other] + 1) (hother : r.labels[d.other] < g.nodeCount) :
    (scan sink v label left r).next ≤ r.labels[d.other] + 1 := by
  rw [not_or, not_le, Bool.not_eq_true] at hgoes
  exact Scan.next_le_of_foldl_visit hproper (fun _ hd => hd) ⟨r, left, g.nodeCount, false⟩ rfl
    hgoes.1 hgoes.2 hd hresidual hlabel hother

theorem own_le_climb (hproper : g.Proper) (sink : g.Node) (label : Nat) (left : K) (r : Round g) :
    ∀ d ∈ g.darts v,
      g.residual (climb sink v label left r).1.flow d ≤ g.residual r.flow d := by
  have hkept : KeptByClimbing sink v label fun q _ =>
      ∀ d ∈ g.darts v, g.residual q.flow d ≤ g.residual r.flow d := by
    intro _ _ _ s d hadmits h e he
    exact (hadmits.residual_send_le hproper he).trans (h e he)
  exact hkept.climb left fun _ _ => le_rfl

theorem left_climb (sink v : g.Node) (label : Nat) (left : K) (r : Round g) (hleft : 0 ≤ left) :
    0 ≤ (climb sink v label left r).2.1 ∧ (climb sink v label left r).2.1 ≤ left := by
  have hkept : KeptByClimbing sink v label fun _ rest => 0 ≤ rest ∧ rest ≤ left := by
    intro _ _ _ s d hadmits h
    refine ⟨?_, hadmits.left_send_le.trans h.2⟩
    rw [left_send]
    exact sub_nonneg.mpr (min_le_left _ _)
  exact hkept.climb (r := r) left ⟨hleft, le_rfl⟩

theorem label_climb (hproper : g.Proper) (sink v : g.Node) (left : K) (r : Round g)
    (hlabel : label < g.nodeCount) :
    label ≤ (climb sink v label left r).2.2 ∧ (climb sink v label left r).2.2 ≤ g.nodeCount := by
  induction label, left, r using Round.climb.induct sink v with
  | case1 label left r s hdone =>
      rw [climb, if_pos hdone]
      exact ⟨le_rfl, hlabel.le⟩
  | case2 label left r s hgoes hnext ih =>
      rw [climb, if_neg hgoes, dif_pos hnext]
      exact ⟨hnext.1.le.trans (ih hnext.2).1, (ih hnext.2).2⟩
  | case3 label left r s hgoes hnext =>
      rw [climb, if_neg hgoes, dif_neg hnext]
      exact ⟨(lt_next_scan hlabel).le, (later_scan hproper sink v label left r).next_le⟩

/-- A node that stays at its label gets rid of its excess there. -/
theorem rest_climb (hproper : g.Proper) (sink : g.Node) (left : K)
    (hlabel : r.labels[v] < g.nodeCount)
    (hstays : (climb sink v r.labels[v] left r).2.2 = r.labels[v]) :
    (climb sink v r.labels[v] left r).2.1 ≤ 0 ∧ (0 < left → ∃ d ∈ g.darts v,
      r.labels[v] = r.labels[d.other] + 1 ∧
        g.residual (climb sink v r.labels[v] left r).1.flow d < g.residual r.flow d) := by
  have hskipped : (scan sink v r.labels[v] left r).skipped = false :=
    Scan.skipped_foldl_visit hproper (fun _ hd => hd) _ rfl rfl
  have hlt : r.labels[v] < (scan sink v r.labels[v] left r).next := lt_next_scan hlabel
  rw [climb] at hstays ⊢
  -- a node that climbed at all would be above its label
  split at hstays
  next hdone =>
    rw [if_pos hdone]
    have hrest := hdone.resolve_right (Bool.eq_false_iff.mp hskipped)
    refine ⟨hrest, fun hleft => ?_⟩
    rcases used_of_scan hproper sink v r.labels[v] left r with ⟨-, heq⟩ | hused
    · exact absurd (heq ▸ hrest) hleft.not_ge
    · exact hused
  next =>
    split at hstays
    next hnext =>
      have hle := (label_climb hproper sink v (scan sink v r.labels[v] left r).left
        (scan sink v r.labels[v] left r).round hnext.2).1
      omega
    next => exact absurd hstays hlt.ne'

/-- A dart that stays open does not let its node climb past the next label above its other
end. -/
theorem label_climb_le_of_open (hproper : g.Proper) (sink v : g.Node) (left : K) (r : Round g)
    (hlabel : label < g.nodeCount) {d : g.DartOf} (hd : d ∈ g.darts v)
    (hopen : 0 < g.residual (climb sink v label left r).1.flow d)
    (hle : label ≤ r.labels[d.other] + 1) :
    (climb sink v label left r).2.2 ≤ r.labels[d.other] + 1 := by
  by_cases hother : r.labels[d.other] < g.nodeCount
  · induction label, left, r using Round.climb.induct sink v with
    | case1 label left r s hdone =>
        rw [climb, if_pos hdone]
        exact hle
    | case2 label left r s hgoes hnext ih =>
        rw [climb, if_neg hgoes, dif_pos hnext] at hopen ⊢
        have hlabels : s.round.labels = r.labels :=
          (later_scan hproper sink v label left r).labels_eq
        have hscanned := hopen.trans_le (own_le_climb hproper sink s.next s.left s.round d hd)
        have hhigher := next_le_scan hproper hgoes hd hscanned hle hother
        rw [hlabels] at ih
        exact ih hnext.2 hopen hhigher hother
    | case3 label left r s hgoes hnext =>
        rw [climb, if_neg hgoes, dif_neg hnext] at hopen ⊢
        exact next_le_scan hproper hgoes hd hopen hle hother
  · -- no climb gets past the sentinel
    have hbound := (label_climb hproper sink v left r hlabel).2
    omega

omit [IsOrderedAddMonoid K] in
/-- A scan sends only along darts that lead to the next label below. -/
theorem label_eq_of_scan_lt (hproper : g.Proper) {d : g.DartOf} (hd : d ∈ g.darts v)
    (hlt : g.residual (scan sink v label left r).round.flow d < g.residual r.flow d) :
    label = r.labels[d.other] + 1 := by
  have hkept : KeptBySending sink v label fun q _ => q.labels = r.labels ∧
      (g.residual q.flow d < g.residual r.flow d → label = r.labels[d.other] + 1) := by
    intro s e hadmits h
    refine ⟨(untouched_send s sink e).labels_eq.trans h.1, fun hless => ?_⟩
    by_cases heq : d = e
    · rw [heq, ← h.1]
      exact hadmits.label_eq
    · rw [residual_send hproper s sink hadmits.mem_darts hd, if_neg heq, sub_zero] at hless
      exact h.2 hless
  exact (hkept.scan left ⟨rfl, fun hless => absurd hless (lt_irrefl _)⟩).2 hlt

/-- To send along a dart a node climbs above its other end. -/
theorem lt_label_climb_of_lt (hproper : g.Proper) (sink v : g.Node) (left : K) (r : Round g)
    (hlabel : label < g.nodeCount) {d : g.DartOf} (hd : d ∈ g.darts v)
    (hlt : g.residual (climb sink v label left r).1.flow d < g.residual r.flow d) :
    r.labels[d.other] < (climb sink v label left r).2.2 := by
  induction label, left, r using Round.climb.induct sink v with
  | case1 label left r s hdone =>
      rw [climb, if_pos hdone] at hlt ⊢
      exact (label_eq_of_scan_lt hproper hd hlt).ge
  | case2 label left r s hgoes hnext ih =>
      rw [climb, if_neg hgoes, dif_pos hnext] at hlt ⊢
      have hlabels : s.round.labels = r.labels :=
        (later_scan hproper sink v label left r).labels_eq
      rcases lt_or_ge (g.residual s.round.flow d) (g.residual r.flow d) with hsent | hunsent
      · have hdown := label_eq_of_scan_lt hproper hd hsent
        have hclimbed := (label_climb hproper sink v s.left s.round hnext.2).1
        exact (Nat.lt_of_succ_le hdown.ge).trans (hnext.1.trans_le hclimbed)
      · rw [hlabels] at ih
        exact ih hnext.2 (hlt.trans_le hunsent)
  | case3 label left r s hgoes hnext =>
      rw [climb, if_neg hgoes, dif_neg hnext] at hlt ⊢
      have hdown := label_eq_of_scan_lt hproper hd hlt
      exact (Nat.lt_of_succ_le hdown.ge).trans (lt_next_scan hlabel)

/-- The first dart that leads down from the label of the node is used, if none before it is. -/
theorem used_climb (hproper : g.Proper) (sink : g.Node) (hleft : 0 < left)
    {as bs : List g.DartOf} {d : g.DartOf}
    (hdarts : g.darts v = as ++ d :: bs) (hdown : r.labels[v] = r.labels[d.other] + 1)
    (hlabel : r.labels[v] < g.nodeCount) (hresidual : 0 < g.residual r.flow d) :
    ∃ e ∈ as ++ [d], r.labels[v] = r.labels[e.other] + 1 ∧
      g.residual (climb sink v r.labels[v] left r).1.flow e < g.residual r.flow e := by
  have hds : ∀ e ∈ as ++ d :: bs, e ∈ g.darts v := fun e he => hdarts ▸ he
  have hscan : (as ++ d :: bs).foldl (Scan.visit sink v r.labels[v])
      ⟨r, left, g.nodeCount, false⟩ = scan sink v r.labels[v] left r := by
    rw [scan, hdarts]
  obtain ⟨e, he, hexact, hused⟩ :=
    Scan.used_of_eligible hproper hds _ hscan hleft rfl hdown hlabel hresidual
  refine ⟨e, he, hexact, lt_of_le_of_lt ?_ hused⟩
  have hmem : e ∈ g.darts v := by
    rw [hdarts]
    rcases List.mem_append.mp he with he | he
    · exact List.mem_append_left _ he
    · exact List.mem_append_right _ (List.mem_singleton.mp he ▸ List.mem_cons_self)
  rw [climb]
  split
  next => exact le_rfl
  next =>
    split
    next => exact own_le_climb hproper sink _ _ _ e hmem
    next => exact le_rfl

end Climb

end PushRelabel.Round
