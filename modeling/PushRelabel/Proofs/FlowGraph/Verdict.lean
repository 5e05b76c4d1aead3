import PushRelabel.Proofs.Double
import PushRelabel.Proofs.FlowGraph.Check

/-! # The verdict on a request

A request is refused for the first check that it fails, and within that check for the first entry
that is at fault; if it passes all checks, a flow graph is built. Which requests are acceptable, and
what each check finds fault with, is said here on the network, the capacities and the terminals that
were given.
-/

namespace PushRelabel

section FirstFault

variable {α β γ ε ε' : Type} {faulty faulty' : α → ε → Prop} {a : α} {as : List α} {e : ε}

/-- The first element of a list that is at fault is at fault in a certain way. -/
inductive FirstFault (faulty : α → ε → Prop) : List α → ε → Prop
  | head {a : α} {as : List α} {e : ε} (h : faulty a e) : FirstFault faulty (a :: as) e
  | tail {a : α} {as : List α} {e : ε} (hsound : ∀ e, ¬ faulty a e)
      (h : FirstFault faulty as e) : FirstFault faulty (a :: as) e

@[simp] theorem not_firstFault_nil : ¬ FirstFault faulty [] e := nofun

theorem firstFault_cons_iff : FirstFault faulty (a :: as) e ↔
    faulty a e ∨ (∀ e, ¬ faulty a e) ∧ FirstFault faulty as e := by
  constructor
  · rintro (h | ⟨hsound, h⟩)
    · exact Or.inl h
    · exact Or.inr ⟨hsound, h⟩
  · rintro (h | ⟨hsound, h⟩)
    · exact .head h
    · exact .tail hsound h

theorem firstFault_congr (h : ∀ a e, faulty a e ↔ faulty' a e) :
    FirstFault faulty as e ↔ FirstFault faulty' as e := by
  have heq : faulty = faulty' := funext₂ fun a e => propext (h a e)
  rw [heq]

theorem firstFault_map_iff {f : β → α} {bs : List β} :
    FirstFault faulty (bs.map f) e ↔ FirstFault (fun b => faulty (f b)) bs e := by
  induction bs with
  | nil => simp
  | cons b bs ih => rw [List.map_cons, firstFault_cons_iff, firstFault_cons_iff, ih]

/-- What is at fault may be reported in another form. -/
theorem exists_firstFault_iff {report : ε → ε'} {e' : ε'} :
    (∃ e, FirstFault faulty as e ∧ e' = report e) ↔
      FirstFault (fun a e' => ∃ e, faulty a e ∧ e' = report e) as e' := by
  induction as with
  | nil => simp
  | cons a as ih =>
      have hsound : (∀ e', ¬ ∃ e, faulty a e ∧ e' = report e) ↔ ∀ e, ¬ faulty a e :=
        ⟨fun h e he => h _ ⟨e, he, rfl⟩, fun h _ ⟨e, he, _⟩ => h e he⟩
      simp only [firstFault_cons_iff, or_and_right, exists_or, and_assoc, exists_and_left, ih,
        hsound]

theorem map_eq_some_iff_firstFault {o : Option ε} {report : ε → ε'} {e' : ε'}
    (h : ∀ e, o = some e ↔ FirstFault faulty as e) :
    o.map report = some e' ↔ FirstFault (fun a e' => ∃ e, faulty a e ∧ e' = report e) as e' := by
  rw [← exists_firstFault_iff, Option.map_eq_some_iff]
  exact exists_congr fun e => and_congr (h e) eq_comm

/-- Nothing is reported if and only if nothing is at fault. -/
theorem forall_not_firstFault_iff :
    (∀ e, ¬ FirstFault faulty as e) ↔ ∀ a ∈ as, ∀ e, ¬ faulty a e := by
  induction as with
  | nil => simp
  | cons a as ih =>
      rw [List.forall_mem_cons, ← ih]
      refine ⟨fun h => ?_, fun h e he => ?_⟩
      · have hsound : ∀ e, ¬ faulty a e := fun e he => h e (.head he)
        exact ⟨hsound, fun e he => h e (.tail hsound he)⟩
      · rcases firstFault_cons_iff.mp he with hhead | ⟨-, htail⟩
        · exact h.1 e hhead
        · exact h.2 e htail

theorem forall_not_firstFault_report_iff {bad : α → Prop} {report : α → ε} :
    (∀ e, ¬ FirstFault (fun a e => bad a ∧ e = report a) as e) ↔ ∀ a ∈ as, ¬ bad a := by
  simp [forall_not_firstFault_iff]

theorem findSome?_eq_some_iff_firstFault {f : α → Option ε} :
    as.findSome? f = some e ↔ FirstFault (fun a e => f a = some e) as e := by
  induction as with
  | nil => simp
  | cons a as ih =>
      rw [firstFault_cons_iff, List.findSome?_cons]
      cases f a with
      | none => simp [ih]
      | some e => simp

theorem find?_eq_some_iff_firstFault {bad : α → Bool} :
    as.find? bad = some a ↔ FirstFault (fun b a => bad b = true ∧ a = b) as a := by
  rw [← List.findSome?_guard, findSome?_eq_some_iff_firstFault]
  exact firstFault_congr fun b a =>
    Option.guard_eq_some_iff.trans ⟨fun h => ⟨h.2, h.1.symm⟩, fun h => ⟨h.2.symm, h.1⟩⟩

theorem except_bind_eq_error_iff {x : Except ε α} {f : α → Except ε β} :
    (x >>= f) = .error e ↔ x = .error e ∨ ∃ a, x = .ok a ∧ f a = .error e := by
  cases x with
  | error e => simp [bind, Except.bind]
  | ok a => simp [bind, Except.bind]

theorem except_map_eq_error_iff {x : Except ε α} {f : α → β} :
    x.map f = .error e ↔ x = .error e := by
  cases x with
  | error e => simp [Except.map]
  | ok a => simp [Except.map]

/-- Where each element is looked at in turn, the first fault ends it. -/
theorem mapM_eq_error_iff {f : α → Except ε β} :
    as.mapM f = .error e ↔ FirstFault (fun a e => f a = .error e) as e := by
  induction as with
  | nil => simp [pure, Except.pure]
  | cons a as ih =>
      rw [List.mapM_cons, firstFault_cons_iff, except_bind_eq_error_iff]
      cases hfirst : f a with
      | error e => simp
      | ok b => simp [except_bind_eq_error_iff, ih, pure, Except.pure]

theorem map_eq_map_of_forall₂ {f : α → γ} {g : β → γ} {bs : List β}
    (h : List.Forall₂ (fun a b => f a = g b) as bs) : as.map f = bs.map g := by
  induction h with
  | nil => rfl
  | cons hab _ ih => rw [List.map_cons, List.map_cons, hab, ih]

/-- Goes on unless there is something to report. -/
def refuse : Option ε → Except ε Unit
  | some e => .error e
  | none => .ok ()

/-- Where one check goes before others, what is reported is a fault that it finds, or what the
others report if it finds none. -/
theorem bind_eq_error_iff {x : Except ε β} {f : β → Except ε γ}
    (hx : ∀ e, x = .error e ↔ faulty a e)
    (hrest : ∀ b, x = .ok b → (f b = .error e ↔ FirstFault faulty as e)) :
    (x >>= f) = .error e ↔ FirstFault faulty (a :: as) e := by
  rw [except_bind_eq_error_iff, firstFault_cons_iff, hx]
  simp only [← hx]
  cases hresult : x with
  | error e => simp
  | ok b => simp [hrest b hresult]

theorem refuse_bind_eq_error_iff {o : Option ε} {f : Unit → Except ε γ}
    (ho : ∀ e, o = some e ↔ faulty a e) (hrest : f () = .error e ↔ FirstFault faulty as e) :
    (refuse o >>= f) = .error e ↔ FirstFault faulty (a :: as) e := by
  refine bind_eq_error_iff (fun e => Iff.trans ?_ (ho e)) fun _ _ => hrest
  cases o <;> simp [refuse]

end FirstFault

/-! ## What is checked -/

/-- The arcs by tail, and in order among those with the same tail. -/
def Network.listed {K : Type} (net : Network K) : List (Arc K) :=
  (List.finRange net.order).flatMap fun v => (net.outgoing v).map fun a => ⟨v, a.1, a.2⟩

theorem Network.forall_listed_iff {K : Type} {net : Network K} {ok : K → Prop} :
    (∀ arc ∈ net.listed, ok arc.capacity) ↔ ∀ v, ∀ a ∈ net.outgoing v, ok a.2 := by
  constructor
  · intro h v a ha
    exact h ⟨v, a.1, a.2⟩ (List.mem_flatMap.mpr
      ⟨v, List.mem_finRange v, List.mem_map.mpr ⟨a, ha, rfl⟩⟩)
  · intro h arc harc
    obtain ⟨v, -, hrow⟩ := List.mem_flatMap.mp harc
    obtain ⟨a, ha, rfl⟩ := List.mem_map.mp hrow
    exact h v a ha

section Terminals

variable {K : Type}

/-- The terminals in the order in which they are given, each with its capacity if it has one. -/
def Terminals.entries : Terminals K → List (Nat × Option K)
  | list ids => ids.map fun id => (id, none)
  | map entries => entries.map fun entry => (entry.1, some entry.2)

theorem Terminals.map_fst_entries (terminals : Terminals K) :
    terminals.entries.map Prod.fst = terminals.ids := by
  cases terminals <;> simp [entries, ids, Function.comp_def]

variable [Quantity K] (net : Network K) (terminals : Terminals K)

/-- Why a terminal is refused: its capacity is none, or its node does not exist. -/
inductive EntryFault : Nat × Option K → InputError K → Prop
  | capacity {id : Nat} {capacity : K}
      (h : ¬ (Quantity.IsCapacity capacity ∧ Quantity.isFinite capacity = true)) :
      EntryFault (id, some capacity) (.terminalCapacity id capacity)
  | node {id : Nat} {capacity? : Option K}
      (hcapacity : ∀ capacity ∈ capacity?,
        Quantity.IsCapacity capacity ∧ Quantity.isFinite capacity = true)
      (h : net.order ≤ id) : EntryFault (id, capacity?) (.unknownNode id)

/-- Why a set of terminals is refused: for the first terminal that is refused, or else for the
smallest one that occurs twice. -/
inductive SetFault : InputError K → Prop
  | entry {e : InputError K} (h : FirstFault (EntryFault net) terminals.entries e) : SetFault e
  | duplicate {id : Nat} (hentries : ∀ e, ¬ FirstFault (EntryFault net) terminals.entries e)
      (h : IsLeast {id | terminals.ids.Duplicate id} id) : SetFault (.duplicateTerminal id)

/-- Terminals that are accepted. -/
structure Terminals.Acceptable : Prop where
  lt_order : ∀ id ∈ terminals.ids, id < net.order
  capacity : ∀ id capacity, (id, some capacity) ∈ terminals.entries →
    Quantity.IsCapacity capacity ∧ Quantity.isFinite capacity = true
  nodup : terminals.ids.Nodup

variable {net terminals} {entry : Nat × Option K} {e : InputError K}

theorem forall_not_entryFault_iff : (∀ e, ¬ EntryFault net entry e) ↔
    entry.1 < net.order ∧ ∀ capacity ∈ entry.2,
      Quantity.IsCapacity capacity ∧ Quantity.isFinite capacity = true := by
  constructor
  · intro h
    have hcapacity : ∀ capacity ∈ entry.2,
        Quantity.IsCapacity capacity ∧ Quantity.isFinite capacity = true := by
      intro capacity hmem
      by_contra hbad
      obtain ⟨id, _⟩ := entry
      obtain rfl := Option.mem_def.mp hmem
      exact h _ (.capacity hbad)
    exact ⟨not_le.mp fun hle => h _ (.node hcapacity hle), hcapacity⟩
  · rintro ⟨hlt, hcapacity⟩ e (hbad | ⟨-, hle⟩)
    · exact hbad (hcapacity _ rfl)
    · exact hlt.not_ge hle

theorem entryFault_none_iff {id : Nat} :
    EntryFault net (id, none) e ↔ net.order ≤ id ∧ e = .unknownNode id := by
  constructor
  · rintro (_ | ⟨-, hle⟩)
    exact ⟨hle, rfl⟩
  · rintro ⟨hle, rfl⟩
    exact .node nofun hle

theorem entryFault_some_iff {id : Nat} {capacity : K} :
    EntryFault net (id, some capacity) e ↔
      ¬ (Quantity.IsCapacity capacity ∧ Quantity.isFinite capacity = true) ∧
        e = .terminalCapacity id capacity ∨
      (Quantity.IsCapacity capacity ∧ Quantity.isFinite capacity = true) ∧
        net.order ≤ id ∧ e = .unknownNode id := by
  constructor
  · rintro (hbad | ⟨hcapacity, hle⟩)
    · exact Or.inl ⟨hbad, rfl⟩
    · exact Or.inr ⟨hcapacity _ rfl, hle, rfl⟩
  · rintro (⟨hbad, rfl⟩ | ⟨hcapacity, hle, rfl⟩)
    · exact .capacity hbad
    · refine .node (fun c hc => ?_) hle
      obtain rfl := Option.some.inj hc
      exact hcapacity

theorem forall_not_firstFault_entries_iff :
    (∀ e, ¬ FirstFault (EntryFault net) terminals.entries e) ↔
      (∀ id ∈ terminals.ids, id < net.order) ∧
        ∀ id capacity, (id, some capacity) ∈ terminals.entries →
          Quantity.IsCapacity capacity ∧ Quantity.isFinite capacity = true := by
  rw [forall_not_firstFault_iff, ← terminals.map_fst_entries, List.forall_mem_map]
  constructor
  · intro h
    have hentry := fun entry hmem => forall_not_entryFault_iff.mp (h entry hmem)
    exact ⟨fun entry hmem => (hentry entry hmem).1,
      fun id capacity hmem => (hentry _ hmem).2 capacity rfl⟩
  · rintro ⟨hlt, hcapacity⟩ entry hmem
    refine forall_not_entryFault_iff.mpr ⟨hlt entry hmem, fun capacity hsome => ?_⟩
    obtain ⟨id, _⟩ := entry
    obtain rfl := Option.mem_def.mp hsome
    exact hcapacity id capacity hmem

theorem acceptable_iff_forall_not_setFault :
    terminals.Acceptable net ↔ ∀ e, ¬ SetFault net terminals e := by
  constructor
  · rintro ⟨hlt, hcapacity, hnodup⟩ e (hentry | ⟨-, hduplicate, -⟩)
    · exact forall_not_firstFault_entries_iff.mpr ⟨hlt, hcapacity⟩ e hentry
    · exact List.nodup_iff_forall_not_duplicate.mp hnodup _ hduplicate
  · intro h
    have hentries := fun e he => h e (.entry he)
    obtain ⟨hlt, hcapacity⟩ := forall_not_firstFault_entries_iff.mp hentries
    refine ⟨hlt, hcapacity, ?_⟩
    by_contra hrepeats
    classical
    have hsome := List.exists_duplicate_iff_not_nodup.mpr hrepeats
    exact h _ (.duplicate hentries ⟨Nat.find_spec hsome, fun id hid => Nat.find_min' hsome hid⟩)

end Terminals

namespace Problem

variable {K : Type} [Quantity K]

section Terminals

variable {net : Network K} {own : Fin net.order → K} {terminals : Terminals K} {e : InputError K}
  {located : List (Fin net.order × K)}

omit [Quantity K] in
theorem locate_eq_error_iff {id : Nat} :
    (locate net id : Except (InputError K) _) = .error e ↔
      net.order ≤ id ∧ e = .unknownNode id := by
  unfold locate Network.node?
  by_cases hid : id < net.order
  · simp [hid]
  · simp [hid, not_lt.mp hid, eq_comm]

theorem locateEntry_eq_error_iff {entry : Nat × K} :
    locateEntry net entry = .error e ↔ EntryFault net (entry.1, some entry.2) e := by
  unfold locateEntry
  rw [entryFault_some_iff]
  split
  next h => simp [except_map_eq_error_iff, locate_eq_error_iff, h]
  next h =>
    rw [Except.error.injEq, eq_comm]
    simp [h]

theorem locateAll_eq_error_iff : locateAll net own terminals = .error e ↔
    FirstFault (EntryFault net) terminals.entries e := by
  cases terminals with
  | list ids =>
      rw [locateAll, mapM_eq_error_iff, Terminals.entries, firstFault_map_iff]
      refine firstFault_congr fun id e => ?_
      rw [except_map_eq_error_iff, locate_eq_error_iff, entryFault_none_iff]
  | map entries =>
      rw [locateAll, mapM_eq_error_iff, Terminals.entries, firstFault_map_iff]
      exact firstFault_congr fun entry e => locateEntry_eq_error_iff

theorem repeated?_eq_some_iff {ids : List Nat} {id : Nat} :
    repeated? ids = some id ↔ IsLeast {id | ids.Duplicate id} id := by
  have hmem : ∀ v, v ∈ (ids.filter fun v => 1 < ids.count v) ↔ ids.Duplicate v := fun v => by
    rw [List.duplicate_iff_two_le_count, List.mem_filter, decide_eq_true_eq]
    exact and_iff_right_of_imp fun h => List.count_pos_iff.mp (by omega)
  unfold repeated?
  rw [List.min?_eq_some_iff]
  simp only [hmem]
  rfl

theorem map_val_of_locateAll (h : locateAll net own terminals = .ok located) :
    located.map (fun t => t.1.val) = terminals.ids := by
  cases terminals with
  | list ids =>
      refine (map_eq_map_of_forall₂ ((forall₂_of_mapM h).imp fun id t ht => ?_)).symm.trans
        (List.map_id ids)
      obtain ⟨v, hv, rfl⟩ := except_map_eq_ok_iff.mp ht
      exact locate_eq_ok_iff.mp hv
  | map entries =>
      refine (map_eq_map_of_forall₂ ((forall₂_of_mapM h).imp fun entry t ht => ?_)).symm
      rw [(locateEntry_eq_ok_iff.mp ht).2]

theorem resolve_eq_error_iff : resolve net own terminals = .error e ↔
    SetFault net terminals e := by
  unfold resolve
  rw [except_bind_eq_error_iff, locateAll_eq_error_iff]
  constructor
  · rintro (hentry | ⟨located, hlocated, h⟩)
    · exact .entry hentry
    · rw [map_val_of_locateAll hlocated] at h
      split at h
      next v hv =>
        cases h
        refine .duplicate (fun e he => ?_) (repeated?_eq_some_iff.mp hv)
        exact nomatch hlocated.symm.trans (locateAll_eq_error_iff.mpr he)
      next => cases h
  · rintro (hentry | ⟨hentries, hleast⟩)
    · exact Or.inl hentry
    · cases hlocated : locateAll net own terminals with
      | error e => exact absurd (locateAll_eq_error_iff.mp hlocated) (hentries e)
      | ok located =>
          refine Or.inr ⟨located, rfl, ?_⟩
          rw [map_val_of_locateAll hlocated, repeated?_eq_some_iff.mpr hleast]
          rfl

theorem map_val_of_resolve (h : resolve net own terminals = .ok located) :
    located.map (fun t => t.1.val) = terminals.ids :=
  map_val_of_locateAll (resolve_eq_ok h).1

end Terminals

variable {p : Problem K} {e : InputError K}

theorem badLimit?_eq_some_iff {bad : Nat × K} : p.badLimit? = some bad ↔
    FirstFault (fun v bad => ∃ limit, p.limits[v] = some limit ∧ ¬ Quantity.IsCapacity limit ∧
      bad = (v.val, limit)) (List.finRange p.network.order) bad := by
  unfold badLimit?
  rw [findSome?_eq_some_iff_firstFault]
  refine firstFault_congr fun v bad => ?_
  cases p.limits[v] with
  | none => simp
  | some limit =>
      by_cases hlimit : Quantity.IsCapacity limit
      · simp [hlimit]
      · simp [hlimit, eq_comm]

theorem badArc?_eq_some_iff {arc : Arc K} : p.badArc? = some arc ↔
    FirstFault (fun a arc => ¬ Quantity.IsCapacity a.capacity ∧ arc = a) p.network.listed arc := by
  have hfind : p.badArc? = p.network.listed.find? fun a => ¬ Quantity.IsCapacity a.capacity := by
    unfold badArc? Network.listed
    rw [List.find?_flatMap]
    congr 1
    funext v
    rw [List.find?_map]
    rfl
  rw [hfind, find?_eq_some_iff_firstFault]
  exact firstFault_congr fun a arc => by rw [decide_eq_true_eq]

/-- The checks, one after the other. -/
theorem check_eq : p.check = (do
    refuse (if p.sources.isEmpty then some .noSources else none)
    refuse (if p.targets.isEmpty then some .noTargets else none)
    refuse (p.badLimit?.map fun bad => .nodeCapacity bad.1 bad.2)
    refuse (p.badArc?.map fun arc => .arcCapacity arc.tail arc.head arc.capacity)
    let sources ← resolve p.network p.network.outCapacity p.sources
    let targets ← resolve p.network (fun v => p.network.inCapacities[v]) p.targets
    refuse ((sources.find? fun s => targets.any fun t => t.1 = s.1).map fun s =>
      .sourceIsTarget s.1)
    return ⟨sources, targets⟩) := by
  unfold Problem.check
  dsimp only
  split
  next => rfl
  split
  next => rfl
  cases p.badLimit? with
  | some bad => rfl
  | none =>
      cases p.badArc? with
      | some arc => rfl
      | none =>
          refine bind_congr fun sources => bind_congr fun targets => ?_
          cases sources.find? fun s => targets.any fun t => t.1 = s.1 <;> rfl

end Problem

/-! ## Requests -/

theorem Double.isCapacity_of_zero_lt {x : Float} (h : 0.0 < x) : Quantity.IsCapacity x := by
  refine (zero_le_iff x).mpr ?_
  rcases (zero_lt_iff x).mp h with hview | ⟨m, e, hm, hview⟩ <;> rw [hview] <;> rfl

/-- A value that is refused as a limit is not taken for no limit. -/
theorem limitOf_eq_some_iff {x limit : Float} : limitOf x = some limit ∧
    ¬ Quantity.IsCapacity limit ↔ x = limit ∧ ¬ Quantity.IsCapacity x := by
  unfold limitOf
  split
  next h =>
    simp [Double.isCapacity_of_zero_lt h.2]
  next =>
    rw [Option.some.injEq]
    refine and_congr_right fun heq => ?_
    rw [heq]

/-- What is checked, in this order. -/
inductive Check where
  | anySource | anyTarget | capacities | arcs | sources | targets | common

def Check.inOrder : List Check :=
  [.anySource, .anyTarget, .capacities, .arcs, .sources, .targets, .common]

theorem Check.mem_inOrder (check : Check) : check ∈ inOrder := by
  cases check <;> simp [inOrder]

/-- What a caller gives: a network, a capacity for each node or none at all, and terminals. -/
structure Request where
  network : Network Float
  capacities : Option (Vector Float network.order)
  sources : Terminals Float
  targets : Terminals Float

namespace Request

variable (r : Request)

/-- Nodes with an infinite capacity are not limited. -/
def problem : Problem Float where
  network := r.network
  limits := r.capacities.elim r.network.unlimited fun given => given.map limitOf
  sources := r.sources
  targets := r.targets

/-- What a check finds fault with. -/
def Violates : Check → InputError Float → Prop
  | .anySource, e => r.sources.ids = [] ∧ e = .noSources
  | .anyTarget, e => r.targets.ids = [] ∧ e = .noTargets
  | .capacities, e => ∃ given, r.capacities = some given ∧
      FirstFault (fun v e => ¬ Quantity.IsCapacity given[v] ∧ e = .nodeCapacity v.val given[v])
        (List.finRange r.network.order) e
  | .arcs, e =>
      FirstFault (fun a e => ¬ Quantity.IsCapacity a.capacity ∧
        e = .arcCapacity a.tail a.head a.capacity) r.network.listed e
  | .sources, e => SetFault r.network r.sources e
  | .targets, e => SetFault r.network r.targets e
  | .common, e =>
      FirstFault (fun id e => id ∈ r.targets.ids ∧ e = .sourceIsTarget id) r.sources.ids e

/-- What a request has to satisfy. A capacity is at least zero, which is not true of a value that is
no number; it may be infinite, except if it is that of a terminal. -/
structure Acceptable : Prop where
  sources_ne_nil : r.sources.ids ≠ []
  targets_ne_nil : r.targets.ids ≠ []
  capacities : ∀ given, r.capacities = some given →
    ∀ v : Fin r.network.order, Quantity.IsCapacity given[v]
  arcs : ∀ v, ∀ a ∈ r.network.outgoing v, Quantity.IsCapacity a.2
  sources : r.sources.Acceptable r.network
  targets : r.targets.Acceptable r.network
  disjoint : ∀ id ∈ r.sources.ids, id ∉ r.targets.ids

variable {r} {e : InputError Float}

theorem isEmpty_iff {terminals : Terminals Float} {refusal : InputError Float} :
    (if terminals.isEmpty then some refusal else none) = some e ↔
      terminals.ids = [] ∧ e = refusal := by
  have hempty : terminals.isEmpty = true ↔ terminals.ids = [] := by
    cases terminals <;> simp [Terminals.isEmpty, Terminals.count, Terminals.ids]
  rw [Option.ite_none_right_eq_some, Option.some.injEq]
  exact and_congr hempty eq_comm

theorem badLimit?_iff :
    (r.problem.badLimit?.map fun bad => .nodeCapacity bad.1 bad.2) = some e ↔
      r.Violates .capacities e := by
  rw [map_eq_some_iff_firstFault fun bad => Problem.badLimit?_eq_some_iff]
  obtain ⟨network, _ | given, sources, targets⟩ := r
  · refine iff_of_false (forall_not_firstFault_iff.mpr (fun v _ e => ?_) e) nofun
    rintro ⟨_, ⟨limit, hlimit, -⟩, -⟩
    have hnone : network.unlimited[v] = none := Vector.getElem_replicate _
    exact nomatch hnone.symm.trans hlimit
  · simp only [Violates, Option.some.injEq, exists_eq_left']
    refine firstFault_congr fun v e => ?_
    have hlimits : (problem ⟨network, some given, sources, targets⟩).limits[v] =
        limitOf given[v] := Vector.getElem_map _ _
    simp only [hlimits, ← and_assoc, limitOf_eq_some_iff]
    constructor
    · rintro ⟨_, ⟨limit, ⟨rfl, hbad⟩, rfl⟩, rfl⟩
      exact ⟨hbad, rfl⟩
    · rintro ⟨hbad, rfl⟩
      exact ⟨_, ⟨_, ⟨rfl, hbad⟩, rfl⟩, rfl⟩

theorem badArc?_iff :
    (r.problem.badArc?.map fun arc => .arcCapacity arc.tail arc.head arc.capacity) = some e ↔
      r.Violates .arcs e := by
  rw [map_eq_some_iff_firstFault fun arc => Problem.badArc?_eq_some_iff]
  exact firstFault_congr fun a e => by simp

theorem common_iff {sources targets : List (Fin r.network.order × Float)}
    (hsources : sources.map (fun s => s.1.val) = r.sources.ids)
    (htargets : targets.map (fun t => t.1.val) = r.targets.ids) :
    ((sources.find? fun s => targets.any fun t => t.1 = s.1).map fun s => .sourceIsTarget s.1) =
      some e ↔ r.Violates .common e := by
  rw [map_eq_some_iff_firstFault fun s => find?_eq_some_iff_firstFault, Violates, ← hsources,
    ← htargets, firstFault_map_iff]
  refine firstFault_congr fun s e => ?_
  have hmem : (targets.any fun t => t.1 = s.1) = true ↔
      s.1.val ∈ targets.map fun t => t.1.val := by
    simp only [List.any_eq_true, decide_eq_true_eq, List.mem_map, Fin.ext_iff]
  rw [← hmem]
  simp

theorem check_eq_error_iff :
    r.problem.check = .error e ↔ FirstFault r.Violates Check.inOrder e := by
  rw [Problem.check_eq]
  unfold Check.inOrder
  refine refuse_bind_eq_error_iff (fun e => isEmpty_iff) ?_
  refine refuse_bind_eq_error_iff (fun e => isEmpty_iff) ?_
  refine refuse_bind_eq_error_iff (fun e => badLimit?_iff) ?_
  refine refuse_bind_eq_error_iff (fun e => badArc?_iff) ?_
  refine bind_eq_error_iff (fun e => Problem.resolve_eq_error_iff) fun sources hsources => ?_
  refine bind_eq_error_iff (fun e => Problem.resolve_eq_error_iff) fun targets htargets => ?_
  refine refuse_bind_eq_error_iff (fun e => common_iff ?_ ?_) ?_
  · exact Problem.map_val_of_resolve hsources
  · exact Problem.map_val_of_resolve htargets
  · exact iff_of_false nofun not_firstFault_nil

theorem acceptable_iff : r.Acceptable ↔ ∀ e, ¬ FirstFault r.Violates Check.inOrder e := by
  rw [forall_not_firstFault_iff]
  constructor
  · intro h check _ e hviolates
    cases check with
    | anySource => exact h.sources_ne_nil hviolates.1
    | anyTarget => exact h.targets_ne_nil hviolates.1
    | capacities =>
        obtain ⟨given, hgiven, hfault⟩ := hviolates
        refine forall_not_firstFault_report_iff.mpr (fun v _ => ?_) e hfault
        exact not_not.mpr (h.capacities given hgiven v)
    | arcs =>
        refine forall_not_firstFault_report_iff.mpr (fun arc harc => ?_) e hviolates
        exact not_not.mpr (Network.forall_listed_iff.mpr h.arcs arc harc)
    | sources => exact acceptable_iff_forall_not_setFault.mp h.sources e hviolates
    | targets => exact acceptable_iff_forall_not_setFault.mp h.targets e hviolates
    | common => exact forall_not_firstFault_report_iff.mpr h.disjoint e hviolates
  · intro h
    have hpasses : ∀ check e, ¬ r.Violates check e := fun check => h check check.mem_inOrder
    refine ⟨fun hnil => hpasses .anySource _ ⟨hnil, rfl⟩,
      fun hnil => hpasses .anyTarget _ ⟨hnil, rfl⟩, fun given hgiven v => ?_,
      Network.forall_listed_iff.mp fun arc harc => ?_,
      acceptable_iff_forall_not_setFault.mpr (hpasses .sources),
      acceptable_iff_forall_not_setFault.mpr (hpasses .targets),
      forall_not_firstFault_report_iff.mp (hpasses .common)⟩
    · have hnone := fun e hfault => hpasses .capacities e ⟨given, hgiven, hfault⟩
      exact not_not.mp (forall_not_firstFault_report_iff.mp hnone v (List.mem_finRange v))
    · exact not_not.mp (forall_not_firstFault_report_iff.mp (hpasses .arcs) arc harc)

/-- A flow graph is built for the requests that are acceptable. For any other one the first check
that it fails is reported, with the first entry with which that check finds fault. -/
theorem verdict : ((∃ g, r.problem.build = .ok g) ↔ r.Acceptable) ∧
    ∀ e, r.problem.build = .error e ↔ FirstFault r.Violates Check.inOrder e := by
  have herror : ∀ e, r.problem.build = .error e ↔ FirstFault r.Violates Check.inOrder e :=
    fun e => except_map_eq_error_iff.trans check_eq_error_iff
  refine ⟨?_, herror⟩
  rw [acceptable_iff]
  simp only [← herror]
  cases r.problem.build <;> simp

/-- Two sources occur twice, and there is no node 7. The smaller one of the two is reported. -/
example : (match Problem.build (problem
    { network := .ofOrder 4, capacities := none
      sources := .list [3, 0, 3, 1, 0], targets := .map [(7, -1)] }) with
    | .error (.duplicateTerminal id) => some id
    | _ => none) = some 0 := by
  decide +kernel

end Request

end PushRelabel
