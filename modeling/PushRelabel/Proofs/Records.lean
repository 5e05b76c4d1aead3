import Mathlib.Data.List.Forall2
import PushRelabel.Network.Records
import PushRelabel.Proofs.Network.Growth
import PushRelabel.Proofs.Text

/-! # What an arc file lists

A line of an arc file is skipped, or it lists an arc, or it offends. A network is loaded from a file
if and only if no line offends, and then it is built from the arcs in the order of their lines.
Otherwise the first line that offends is reported, with its number among all lines of the file.
-/

namespace PushRelabel

theorem mapError_eq_ok_iff {ε ε' α : Type} {f : ε → ε'} {x : Except ε α} {a : α} :
    x.mapError f = .ok a ↔ x = .ok a := by
  cases x with
  | error e => simp [Except.mapError]
  | ok a => simp [Except.mapError]

namespace Records

/-! ## Lines and records -/

/-- A line that has nothing between the blanks at its ends, or a comment. -/
def Skipped (line : List Char) : Prop :=
  Text.trim line = [] ∨ (Text.trim line).head? = some '#'

instance (line : List Char) : Decidable (Skipped line) :=
  inferInstanceAs (Decidable (_ ∨ _))

/-- The fields of each line that is not skipped. -/
def records (lines : List (List Char)) : List (List (List Char)) :=
  (lines.filter fun line => ¬ Skipped line).map Text.fields

/-- Fields that name an arc: a tail, a head and perhaps a capacity. -/
inductive IsArc : List (List Char) → Arc Float → Prop
  | unit {tail head : List Char} {t h : Nat} (htail : Decimal.readWord tail = .ok t)
      (hhead : Decimal.readWord head = .ok h) : IsArc [tail, head] ⟨t, h, 1.0⟩
  | limited {tail head capacity : List Char} {t h : Nat} {c : Float}
      (htail : Decimal.readWord tail = .ok t) (hhead : Decimal.readWord head = .ok h)
      (hcapacity : Decimal.readDecimal capacity = .ok c) :
      IsArc [tail, head, capacity] ⟨t, h, c⟩

def Lists (line : List Char) (arc : Arc Float) : Prop :=
  ∃ fields, Text.FieldsOf line fields ∧ IsArc fields arc

/-- A line that should list an arc, but does not. -/
def Offends (line : List Char) : Prop := ¬ Skipped line ∧ ∀ arc, ¬ Lists line arc

variable {line : List Char} {lines : List (List Char)} {fields : List (List Char)}
  {arc : Arc Float} {arcs : List (Arc Float)}

theorem skipped_iff : Skipped line ↔ Text.fields line = [] ∨ isComment (Text.fields line) := by
  rw [Skipped, ← Text.fields_dropWhile]
  -- Both sides are decided by the first character that is no blank.
  cases hdrop : line.dropWhile Text.isBlank with
  | nil => simp [Text.trim_of_dropWhile_eq_nil hdrop, Text.fields, Text.pieces]
  | cons c rest =>
      have hhead := Text.head?_trim hdrop
      obtain ⟨word, words, hfields⟩ :=
        Text.fields_cons_of_not_isBlank rest (Text.isBlank_of_dropWhile_eq_cons hdrop)
      have hne : Text.trim line ≠ [] := fun h => by simp [h] at hhead
      have hcomment : isComment ((c :: word) :: words) = true ↔ c = '#' := by
        unfold isComment
        split <;> simp_all
      simp [hhead, hne, hfields, hcomment]

theorem records_cons_of_skipped (h : Skipped line) : records (line :: lines) = records lines := by
  simp [records, h]

theorem records_cons_of_not_skipped (h : ¬ Skipped line) :
    records (line :: lines) = Text.fields line :: records lines := by
  simp [records, h]

theorem mem_records_iff : fields ∈ records lines ↔
    ∃ line ∈ lines, ¬ Skipped line ∧ Text.fields line = fields := by
  simp [records, and_assoc]

/-! ## Arcs -/

theorem lists_iff : Lists line arc ↔ IsArc (Text.fields line) arc := by
  simp [Lists, Text.fieldsOf_iff]

theorem readWord_eq_ok_iff {cs : List Char} {n : Nat} :
    readWord cs = .ok n ↔ Decimal.readWord cs = .ok n := by
  unfold readWord
  split <;> simp_all

theorem readDecimal_eq_ok_iff {cs : List Char} {x : Float} :
    readDecimal cs = .ok x ↔ Decimal.readDecimal cs = .ok x := by
  unfold readDecimal
  split <;> simp_all

theorem readArc_eq_ok_iff : readArc fields = .ok arc ↔ IsArc fields arc := by
  constructor
  · intro h
    unfold readArc at h
    split at h
    · obtain ⟨t, htail, h⟩ := except_bind_eq_ok_iff.mp h
      obtain ⟨n, hhead, ⟨⟩⟩ := except_bind_eq_ok_iff.mp h
      exact .unit (readWord_eq_ok_iff.mp htail) (readWord_eq_ok_iff.mp hhead)
    · obtain ⟨t, htail, h⟩ := except_bind_eq_ok_iff.mp h
      obtain ⟨n, hhead, h⟩ := except_bind_eq_ok_iff.mp h
      obtain ⟨c, hcapacity, ⟨⟩⟩ := except_bind_eq_ok_iff.mp h
      exact .limited (readWord_eq_ok_iff.mp htail) (readWord_eq_ok_iff.mp hhead)
        (readDecimal_eq_ok_iff.mp hcapacity)
    · cases h
  · rintro (⟨htail, hhead⟩ | ⟨htail, hhead, hcapacity⟩)
    · rw [readArc, readWord_eq_ok_iff.mpr htail, readWord_eq_ok_iff.mpr hhead]
      rfl
    · rw [readArc, readWord_eq_ok_iff.mpr htail, readWord_eq_ok_iff.mpr hhead,
        readDecimal_eq_ok_iff.mpr hcapacity]
      rfl

theorem isArc_rightUnique : Relator.RightUnique IsArc := fun _ _ _ h h' =>
  Except.ok.inj ((readArc_eq_ok_iff.mpr h).symm.trans (readArc_eq_ok_iff.mpr h'))

theorem offends_iff : Offends line ↔
    ¬ Skipped line ∧ ∃ cause, readArc (Text.fields line) = .error cause := by
  refine and_congr_right fun _ => ?_
  simp only [lists_iff, ← readArc_eq_ok_iff]
  cases readArc (Text.fields line) with
  | ok arc => simp
  | error cause => simp

/-- No number starts with a number sign. -/
theorem not_lists_of_skipped (hline : Skipped line) : ¬ Lists line arc := by
  intro hlists
  have harc := lists_iff.mp hlists
  rcases skipped_iff.mp hline with hnil | hcomment
  · rw [hnil] at harc
    cases harc
  · unfold isComment at hcomment
    split at hcomment
    next heq =>
      rw [heq] at harc
      cases harc with
      | unit htail => cases htail
      | limited htail => cases htail
    next => cases hcomment

theorem mem_iff_exists_lists (h : List.Forall₂ IsArc (records lines) arcs) :
    arc ∈ arcs ↔ ∃ line ∈ lines, Lists line arc := by
  obtain ⟨hrecords, harcs⟩ := exists_of_forall₂ h
  constructor
  · intro harc
    obtain ⟨fields, hfields, hr⟩ := harcs arc harc
    obtain ⟨line, hline, -, rfl⟩ := mem_records_iff.mp hfields
    exact ⟨line, hline, lists_iff.mpr hr⟩
  · rintro ⟨line, hline, hlists⟩
    have hkept : ¬ Skipped line := fun h => not_lists_of_skipped h hlists
    obtain ⟨arc', harc', hr⟩ := hrecords _ (mem_records_iff.mpr ⟨line, hline, hkept, rfl⟩)
    rwa [isArc_rightUnique (lists_iff.mp hlists) hr]

theorem exists_arcs_iff : (∃ arcs, List.Forall₂ IsArc (records lines) arcs) ↔
    ∀ line ∈ lines, ¬ Offends line := by
  constructor
  · rintro ⟨arcs, h⟩ line hline ⟨hkept, hoffends⟩
    obtain ⟨arc, -, harc⟩ :=
      (exists_of_forall₂ h).1 _ (mem_records_iff.mpr ⟨line, hline, hkept, rfl⟩)
    exact hoffends arc (lists_iff.mpr harc)
  · intro hsound
    induction lines with
    | nil => exact ⟨[], .nil⟩
    | cons line lines ih =>
        obtain ⟨hline, hlines⟩ := List.forall_mem_cons.mp hsound
        obtain ⟨arcs, harcs⟩ := ih hlines
        by_cases hskipped : Skipped line
        · exact ⟨arcs, (records_cons_of_skipped hskipped).symm ▸ harcs⟩
        · obtain ⟨arc, hlists⟩ : ∃ arc, Lists line arc := by
            by_contra hnone
            exact hline ⟨hskipped, not_exists.mp hnone⟩
          rw [records_cons_of_not_skipped hskipped]
          exact ⟨arc :: arcs, .cons (lists_iff.mp hlists) harcs⟩

/-! ## Runs over lines -/

section Run

variable {ρ σ : Type} {path : String} {read : List (List Char) → Except RecordError ρ}
  {take : σ → ρ → Except Fault σ} {n : Nat} {s : σ} {rest : List (List UInt8)} {r : ρ}
  {rs : List ρ} {cause : RecordError}

theorem foldLines_of_skipped (h : Skipped line) :
    foldLines path read take n s (Text.utf8 line :: rest) =
      foldLines path read take (n + 1) s rest := by
  rw [foldLines, Text.decode_utf8]
  exact if_pos (skipped_iff.mp h)

theorem foldLines_of_ok (h : ¬ Skipped line) (hread : read (Text.fields line) = .ok r) :
    foldLines path read take n s (Text.utf8 line :: rest) =
      ((take s r).mapError .fault >>= (foldLines path read take (n + 1) · rest)) := by
  rw [foldLines, Text.decode_utf8]
  simp only [mt skipped_iff.mpr h, if_false, hread]
  cases take s r <;> rfl

theorem foldLines_of_error (h : ¬ Skipped line) (hread : read (Text.fields line) = .error cause) :
    foldLines path read take n s (Text.utf8 line :: rest) = .error (.badRecord path n cause) := by
  rw [foldLines, Text.decode_utf8]
  simp only [mt skipped_iff.mpr h, if_false, hread]

/-- Lines whose records can be read are taken record by record. -/
theorem foldLines_append
    (h : List.Forall₂ (fun fields r => read fields = .ok r) (records lines) rs) :
    foldLines path read take n s (lines.map Text.utf8 ++ rest) =
      ((rs.foldlM take s).mapError .fault >>=
        (foldLines path read take (n + lines.length) · rest)) := by
  induction lines generalizing n s rs with
  | nil =>
      cases h
      rfl
  | cons line lines ih =>
      -- A line counts for the number of the next one whether it is skipped or not.
      rw [List.map_cons, List.cons_append, List.length_cons, Nat.add_comm lines.length,
        ← Nat.add_assoc]
      by_cases hline : Skipped line
      · rw [records_cons_of_skipped hline] at h
        rw [foldLines_of_skipped hline, ih h]
      · rw [records_cons_of_not_skipped hline] at h
        obtain _ | ⟨hr, h⟩ := h
        rw [foldLines_of_ok hline hr, List.foldlM_cons]
        cases take s _ with
        | error cause => rfl
        | ok s => exact ih h

/-- If lines are taken to their end, then all their records were read. -/
theorem exists_of_foldLines_eq_ok {s' : σ}
    (h : foldLines path read take n s (lines.map Text.utf8) = .ok s') :
    ∃ rs, List.Forall₂ (fun fields r => read fields = .ok r) (records lines) rs := by
  induction lines generalizing n s with
  | nil => exact ⟨[], .nil⟩
  | cons line lines ih =>
      rw [List.map_cons] at h
      by_cases hline : Skipped line
      · rw [records_cons_of_skipped hline]
        exact ih (foldLines_of_skipped hline ▸ h)
      cases hr : read (Text.fields line) with
      | error cause =>
          rw [foldLines_of_error hline hr] at h
          cases h
      | ok r =>
          rw [foldLines_of_ok hline hr] at h
          obtain ⟨middle, -, h⟩ := except_bind_eq_ok_iff.mp h
          obtain ⟨rs, hrs⟩ := ih h
          rw [records_cons_of_not_skipped hline]
          exact ⟨r :: rs, .cons hr hrs⟩

end Run

end Records

namespace Network

/-! ## Arc files -/

open Records

variable {path text : String} {lines : List (List Char)} {arcs : List (Arc Float)}
  {net : Network Float}

theorem load_eq (hlines : Text.LinesOf text.toList lines) :
    load path (.ok (Text.encode text)) =
      foldLines path readArc receive 1 empty (lines.map Text.utf8) := by
  rw [load, foldFile, Text.encode_eq, Text.lines_utf8 hlines]

/-- After lines that list arcs, the network of these arcs is there. -/
theorem foldLines_readArc {n : Nat} {rest : List (List UInt8)}
    (harcs : List.Forall₂ IsArc (records lines) arcs) (hnet : ofArcs arcs = .ok net) :
    foldLines path readArc receive n empty (lines.map Text.utf8 ++ rest) =
      foldLines path readArc receive (n + lines.length) net rest := by
  rw [foldLines_append (harcs.imp fun _ _ => readArc_eq_ok_iff.mpr)]
  change ((ofArcs arcs).mapError _ >>= _) = _
  rw [hnet]
  rfl

theorem load_eq_ok_iff (hlines : Text.LinesOf text.toList lines) :
    load path (.ok (Text.encode text)) = .ok net ↔
      ∃ arcs, List.Forall₂ IsArc (records lines) arcs ∧ ofArcs arcs = .ok net := by
  rw [load_eq hlines]
  constructor
  · intro h
    obtain ⟨arcs, harcs⟩ := exists_of_foldLines_eq_ok h
    rw [← List.append_nil (lines.map _), foldLines_append harcs] at h
    obtain ⟨net', hnet', h⟩ := except_bind_eq_ok_iff.mp h
    obtain rfl : net' = net := Except.ok.inj h
    exact ⟨arcs, harcs.imp fun _ _ => readArc_eq_ok_iff.mp, mapError_eq_ok_iff.mp hnet'⟩
  · rintro ⟨arcs, harcs, hnet⟩
    rw [← List.append_nil (lines.map _), foldLines_readArc harcs hnet]
    rfl

theorem load_of_offends {before after : List (List Char)} {line : List Char} {cause : RecordError}
    (hlines : Text.LinesOf text.toList (before ++ line :: after))
    (harcs : List.Forall₂ IsArc (records before) arcs) (hnet : ofArcs arcs = .ok net)
    (hline : ¬ Skipped line) (hcause : readArc (Text.fields line) = .error cause) :
    load path (.ok (Text.encode text)) = .error (.badRecord path (before.length + 1) cause) := by
  rw [load_eq hlines, List.map_append, foldLines_readArc harcs hnet, List.map_cons,
    foldLines_of_error hline hcause, Nat.add_comm]

/-- Lines that do not offend give a network, if there is room for the nodes that they name. -/
theorem exists_ofArcs_of_lines (hsound : ∀ line ∈ lines, ¬ Offends line)
    (hroom : ∀ line ∈ lines, ∀ arc, Records.Lists line arc →
      Room.Holds Room.rowBytes (max arc.tail arc.head + 1)) :
    ∃ arcs net, List.Forall₂ IsArc (records lines) arcs ∧ ofArcs arcs = .ok net := by
  obtain ⟨arcs, harcs⟩ := exists_arcs_iff.mpr hsound
  have hadmits : ∀ arc ∈ arcs, Admits arc := fun arc harc => by
    obtain ⟨line, hline, hlists⟩ := (mem_iff_exists_lists harcs).mp harc
    exact hroom line hline arc hlists
  exact ⟨arcs, _, harcs, ofArcs_eq_ok_iff.mpr ⟨hadmits, rfl⟩⟩

/-- Every text has lines, and they alone decide whether it gives a network, and which one. -/
theorem exists_lines_load (path text : String) : ∃ lines, Text.LinesOf text.toList lines ∧
    ∀ net, load path (.ok (Text.encode text)) = .ok net ↔
      ∃ arcs, List.Forall₂ IsArc (records lines) arcs ∧ ofArcs arcs = .ok net := by
  obtain ⟨lines, hlines⟩ := Text.exists_linesOf text.toList
  exact ⟨lines, hlines, fun _ => load_eq_ok_iff hlines⟩

/-- A network is loaded from a text if and only if none of its lines offends, and then it is built
from the arcs that are listed, in the order of their lines. Otherwise the first line that offends is
reported, with its number among all lines, counted from one. Of a line that is not skipped only the
fields matter, and of one that is skipped nothing. -/
theorem load_iff_listed (path text : String) {lines : List (List Char)}
    (hlines : Text.LinesOf text.toList lines)
    (hroom : ∀ line ∈ lines, ∀ arc, Records.Lists line arc →
      Room.Holds Room.rowBytes (max arc.tail arc.head + 1)) :
    ((∃ net, load path (.ok (Text.encode text)) = .ok net) ↔ ∀ line ∈ lines, ¬ Offends line) ∧
    (∀ net, load path (.ok (Text.encode text)) = .ok net →
      ∃ arcs, List.Forall₂ IsArc (records lines) arcs ∧ ofArcs arcs = .ok net ∧
        net.order = nodesNamed arcs) ∧
    (∀ (before : List (List Char)) (line : List Char) (after : List (List Char)),
      lines = before ++ line :: after → (∀ l ∈ before, ¬ Offends l) → Offends line →
      ∃ cause, readArc (Text.fields line) = .error cause ∧
        load path (.ok (Text.encode text)) = .error (.badRecord path (before.length + 1) cause)) ∧
    ∀ (text' : String) (lines' : List (List Char)), Text.LinesOf text'.toList lines' →
      records lines' = records lines → ∀ net,
        load path (.ok (Text.encode text')) = .ok net ↔
          load path (.ok (Text.encode text)) = .ok net := by
  refine ⟨⟨?_, ?_⟩, ?_, ?_, ?_⟩
  · rintro ⟨net, h⟩
    obtain ⟨arcs, harcs, -⟩ := (load_eq_ok_iff hlines).mp h
    exact exists_arcs_iff.mp ⟨arcs, harcs⟩
  · intro hsound
    obtain ⟨arcs, net, hnet⟩ := exists_ofArcs_of_lines hsound hroom
    exact ⟨net, (load_eq_ok_iff hlines).mpr ⟨arcs, hnet⟩⟩
  · intro net h
    obtain ⟨arcs, harcs, hnet⟩ := (load_eq_ok_iff hlines).mp h
    exact ⟨arcs, harcs, hnet, order_ofArcs hnet⟩
  · rintro before line after rfl hbefore hline
    obtain ⟨hkept, cause, hcause⟩ := offends_iff.mp hline
    obtain ⟨arcs, net, harcs, hnet⟩ := exists_ofArcs_of_lines hbefore fun line hline =>
      hroom line (List.mem_append_left _ hline)
    exact ⟨cause, hcause, load_of_offends hlines harcs hnet hkept hcause⟩
  · intro text' lines' hlines' hrecords net
    rw [load_eq_ok_iff hlines, load_eq_ok_iff hlines', hrecords]

/-- A comment, an empty line, blanks outside of ASCII, line ends of both kinds. -/
def mixed : List (List Char) :=
  [['#', ' ', 'a'], [], ['\u3000', '0', ' ', ' ', '2', '\t', '7', '.', '5', ' '],
    ['\u00a0', '#', '5'], ['2', ' ', '0']]

def mixedText (rest : List Char) : List Char :=
  ['#', ' ', 'a'] ++ '\r' :: '\n' :: ([] ++ '\r' :: '\n' ::
    (['\u3000', '0', ' ', ' ', '2', '\t', '7', '.', '5', ' '] ++ '\n' ::
      (['\u00a0', '#', '5'] ++ '\n' :: (['2', ' ', '0'] ++ '\r' :: '\n' :: rest))))

theorem linesOf_mixed {rest : List Char} (h : Text.LinesOf rest lines) :
    Text.LinesOf (mixedText rest) (mixed ++ lines) :=
  .returnFeed (by decide) <| .returnFeed (by decide) <| .feed (by decide) (by decide) <|
    .feed (by decide) (by decide) <| .returnFeed (by decide) h

theorem arcs_mixed : ∃ capacity,
    List.Forall₂ IsArc (records mixed) [⟨0, 2, capacity⟩, ⟨2, 0, 1.0⟩] := by
  have hrecords : records mixed = [[['0'], ['2'], ['7', '.', '5']], [['2'], ['0']]] := by decide
  rw [hrecords]
  exact ⟨_, .cons (.limited rfl rfl rfl) (.cons (.unit rfl rfl) .nil)⟩

theorem load_iff_listed_mixed :
    (∃ net, load "arcs" (.ok (Text.encode (String.ofList (mixedText [])))) = .ok net ∧
      net.order = 3) ∧
    load "arcs" (.ok (Text.encode (String.ofList (mixedText ['1', ' ', 'x'])))) =
      .error (.badRecord "arcs" 6 (.number .invalidDigit)) := by
  obtain ⟨capacity, hmixed⟩ := arcs_mixed
  have hroom : ∀ line ∈ mixed, ∀ arc, Records.Lists line arc →
      Room.Holds Room.rowBytes (max arc.tail arc.head + 1) := by
    intro line hline arc hlists
    have harc := (mem_iff_exists_lists hmixed).mpr ⟨line, hline, hlists⟩
    simp only [List.mem_cons, List.not_mem_nil, or_false] at harc
    rcases harc with rfl | rfl
    · exact (by decide : Room.Holds Room.rowBytes (max 0 2 + 1))
    · exact (by decide : Room.Holds Room.rowBytes (max 2 0 + 1))
  have hsound := exists_arcs_iff.mp ⟨_, hmixed⟩
  have hbad : Offends ['1', ' ', 'x'] := offends_iff.mpr ⟨by decide, .number .invalidDigit, rfl⟩
  constructor
  · have hlines : Text.LinesOf (String.ofList (mixedText [])).toList mixed :=
      String.toList_ofList ▸ linesOf_mixed .nil
    obtain ⟨hloads, hnet, -⟩ := load_iff_listed "arcs" _ hlines hroom
    obtain ⟨net, hload⟩ := hloads.mpr hsound
    obtain ⟨arcs, harcs, -, horder⟩ := hnet net hload
    obtain rfl := isArc_rightUnique.forall₂ harcs hmixed
    exact ⟨net, hload, horder⟩
  · have hlines : Text.LinesOf (String.ofList (mixedText ['1', ' ', 'x'])).toList
        (mixed ++ [['1', ' ', 'x']]) :=
      String.toList_ofList ▸ linesOf_mixed (.last (by decide) (by decide))
    obtain ⟨-, -, hrefused, -⟩ := load_iff_listed "arcs" _ hlines fun line hline arc hlists => by
      rcases List.mem_append.mp hline with hline | hline
      · exact hroom line hline arc hlists
      · exact absurd hlists ((List.mem_singleton.mp hline ▸ hbad).2 arc)
    obtain ⟨cause, hcause, hload⟩ := hrefused mixed _ [] rfl hsound hbad
    cases hcause
    exact hload

end Network

end PushRelabel
