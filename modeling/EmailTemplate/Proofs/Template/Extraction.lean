import EmailTemplate.Proofs.Template.Padding
import EmailTemplate.Proofs.Template.Verbatim

/-! What extraction is for. The names that it gives are those of the tokens for values, and they are
what has to be bound for a filled template to have no token left. -/

namespace EmailTemplate.Template

open Text

/-! ### Names of a row -/

theorem mem_innersOf {row : List Piece} {w : List Char} : w ∈ innersOf row ↔ .value w ∈ row := by
  rw [innersOf, List.mem_filterMap]
  constructor
  · rintro ⟨p, hp, hw⟩
    cases p with
    | text s => cases hw
    | value inner => exact Option.some.inj hw ▸ hp
  · exact fun h => ⟨.value w, h, rfl⟩

@[simp]
theorem innersOf_text (s : List Char) (row : List Piece) :
    innersOf (.text s :: row) = innersOf row := rfl

@[simp]
theorem innersOf_value (w : List Char) (row : List Piece) :
    innersOf (.value w :: row) = w :: innersOf row := rfl

@[simp]
theorem innersOf_append (row row' : List Piece) :
    innersOf (row ++ row') = innersOf row ++ innersOf row' := List.filterMap_append

/-- A name is put behind the others unless it is among them. -/
theorem foldl_contains_eq (found done : List (List Char)) :
    found.foldl (fun done name => if done.contains name then done else done ++ [name]) done =
      done ++ (found.filter fun name => !done.contains name).eraseDups := by
  induction found generalizing done with
  | nil => simp
  | cons first found ih =>
    rw [List.foldl_cons, ih]
    by_cases hfirst : done.contains first = true
    · rw [if_pos hfirst, List.filter_cons_of_neg (by simpa using hfirst)]
    · rw [if_neg hfirst, List.filter_cons_of_pos (by simpa using hfirst), List.eraseDups_cons,
        List.filter_filter, List.append_assoc, List.singleton_append]
      congr 3
      refine List.filter_congr fun name _ => ?_
      rw [Bool.eq_iff_iff]
      simp [and_comm]

theorem placeholderNames_printRow {row : List Piece} (h : LooseRow row) :
    placeholderNames (printRow row) =
      (((innersOf row).filter fun w => decide (Wanted w)).map trim).eraseDups := by
  have htrimmed : Source.Padded.trimmedWords row = (innersOf row).map trim := by
    rw [Source.Padded.trimmedWords, innersOf, List.map_filterMap]
    refine List.filterMap_congr fun p _ => ?_
    cases p <;> rfl
  have hnames : collect _ (printRow row) = (innersOf row).map trim :=
    (collect_printRow h).trans htrimmed
  rw [placeholderNames, hnames, foldl_contains_eq, List.nil_append,
    List.filter_eq_self.mpr (by simp), List.filter_map]
  refine congrArg (fun names => (names.map trim).eraseDups) (List.filter_congr fun w hw => ?_)
  have hfree : BraceFree w := h _ (mem_innersOf.mp hw)
  rw [Function.comp_apply, Bool.eq_iff_iff]
  cases htrim : trim w with
  | nil => simp [Wanted, htrim]
  | cons c name => simp [Wanted, htrim, hfree]

/-- The cleanup leaves alone just the rows without tokens. -/
theorem strip_printRow_eq_self_iff {row : List Piece} (h : LooseRow row) :
    strip (printRow row) = printRow row ↔ innersOf row = [] := by
  rw [← (strip_printRow_iff h.tokens).mp (strip_printRow_of_loose h)]
  rcases strip_length_lt_or_eq (printRow row) with ⟨hsame, hnone⟩ | ⟨hlt, hsome⟩
  · exact iff_of_true hsame hnone
  · exact iff_of_false (fun he => hlt.ne (congrArg List.length he)) hsome

theorem innersOf_map_fill (value? : List Char → Option (List Char)) (row : List Piece) :
    innersOf (row.map (Piece.fill value?)) = (innersOf row).filter fun w => (value? w).isNone := by
  induction row with
  | nil => rfl
  | cons p row ih =>
    cases p with
    | text s => exact ih
    | value w =>
      cases hw : value? w with
      | none =>
        have hkeep : innersOf ((Piece.value w :: row).map (Piece.fill value?)) =
            w :: innersOf (row.map (Piece.fill value?)) := by
          simp [innersOf, Piece.fill, hw]
        rw [hkeep, ih, innersOf_value, List.filter_cons_of_pos (by simp [hw])]
      | some put =>
        have hdrop : innersOf ((Piece.value w :: row).map (Piece.fill value?)) =
            innersOf (row.map (Piece.fill value?)) := by
          simp [innersOf, Piece.fill, hw]
        rw [hdrop, ih, innersOf_value, List.filter_cons_of_neg (by simp [hw])]

namespace Source

/-- The names of the tokens for values in their order, blanks aside. -/
def valueNames : Source → List (List Char)
  | nil => []
  | piece (.text _) rest => rest.valueNames
  | piece (.value w) rest => trim w :: rest.valueNames
  | block _ body rest => body.valueNames ++ rest.valueNames
  | loop _ body rest => body.valueNames ++ rest.valueNames

/-- The tokens around a section want no value. -/
theorem wanted_between {opener closer : List Char} (hopener : ¬ Wanted opener)
    (hcloser : ¬ Wanted closer) (body rest : List Piece) :
    ((innersOf (.value opener :: (body ++ .value closer :: rest))).filter
        fun w => decide (Wanted w)).map trim =
      ((innersOf body).filter fun w => decide (Wanted w)).map trim ++
        ((innersOf rest).filter fun w => decide (Wanted w)).map trim := by
  rw [innersOf_value, innersOf_append, innersOf_value, List.filter_cons_of_neg (by simpa using hopener),
    List.filter_append, List.filter_cons_of_neg (by simpa using hcloser), List.map_append]

theorem wanted_row {t : Source} (h : t.WellFormed) :
    ((innersOf t.row).filter fun w => decide (Wanted w)).map trim = t.valueNames := by
  induction t with
  | nil => rfl
  | piece p rest ih =>
    cases p with
    | text s => exact ih h.2
    | value w =>
      have hw : Wanted w := h.1
      rw [row, innersOf_value, List.filter_cons_of_pos (by simpa using hw), List.map_cons, ih h.2,
        valueNames]
  | block name body rest ihb ihr =>
    have hopener : ¬ Wanted (openerWord name) := fun hw => hw.head_ne (.inl rfl) rfl
    have hcloser : ¬ Wanted (closerWord name) := fun hw => hw.head_ne (.inr rfl) rfl
    obtain ⟨-, -, hb, hr⟩ := h
    rw [row, wanted_between hopener hcloser, ihb hb, ihr hr, valueNames]
  | loop name body rest ihb ihr =>
    have hopener : ¬ Wanted (loopWord name) := fun hw => hw.head_ne (.inl rfl) rfl
    have hcloser : ¬ Wanted ['/', 'e', 'a', 'c', 'h'] := fun hw => hw.head_ne (.inr rfl) rfl
    obtain ⟨-, -, hb, hr⟩ := h
    rw [row, wanted_between hopener hcloser, ihb hb, ihr hr, valueNames]

theorem extract_print {t : Source} (h : t.WellFormed) :
    extract (String.ofList t.print) = t.valueNames.eraseDups.map String.ofList := by
  rw [extract, String.toList_ofList, ← printRow_row, placeholderNames_printRow (row_clean h).loose,
    wanted_row h]

/-- A template without loops keeps all its tokens for values if all sections are shown. -/
theorem trim_innersOf_pieces {t : Source} (hl : t.Loopless) {data : Json.Value}
    (hshown : ∀ name ∈ t.blockNames, isVisible data name = true) :
    (innersOf (t.pieces data)).map trim = t.valueNames := by
  induction t with
  | nil => rfl
  | piece p rest ih =>
    cases p with
    | text s => exact ih hl hshown
    | value w => rw [pieces, innersOf_value, List.map_cons, ih hl hshown, valueNames]
  | block name body rest ihb ihr =>
    rw [blockNames, List.forall_mem_cons, List.forall_mem_append] at hshown
    obtain ⟨hname, hbody, hrest⟩ := hshown
    rw [pieces, if_pos hname, innersOf_append, List.map_append, ihb hl.1 hbody, ihr hl.2 hrest,
      valueNames]
  | loop name body rest => exact hl.elim

theorem pieces_sublist_row {t : Source} (hl : t.Loopless) (data : Json.Value) :
    (t.pieces data).Sublist t.row := by
  induction t with
  | nil => exact .slnil
  | piece p rest ih => exact (ih hl).cons_cons p
  | block name body rest ihb ihr =>
    refine List.Sublist.cons _ (List.Sublist.append ?_ ((ihr hl.2).cons _))
    split
    · exact ihb hl.1
    · exact List.nil_sublist _
  | loop name body rest => exact hl.elim

/-- The names that are extracted are those of the tokens for values, each at its first place. With all
sections shown nothing is left to clean up just if each of them is bound. -/
theorem extract_needed {t : Source} (h : t.WellFormed) (hl : t.Loopless) :
    extract (String.ofList t.print) = t.valueNames.eraseDups.map String.ofList ∧
    ∀ (data : Json.Value) (values : Bindings), (∀ name ∈ t.blockNames, isVisible data name = true) →
      BraceFreeBindings values →
      (strip (substitute values (resolveBlocks t.print data)) =
          substitute values (resolveBlocks t.print data) ↔
        ∀ name ∈ extract (String.ofList t.print), ∃ text, Json.lookup? name values = some text) := by
  refine ⟨extract_print h, fun data values hshown hfree => ?_⟩
  have hrow : CleanRow (t.pieces data) := fun p hp =>
    row_clean h p ((pieces_sublist_row hl data).subset hp)
  have hbound : ∀ inner put, boundValue? values inner = some put → BraceFree put := by
    intro inner put hput
    obtain ⟨text, htext, rfl⟩ := Option.map_eq_some_iff.mp hput
    exact hfree _ (Json.mem_of_lookup? htext)
  rw [resolveBlocks_print h, ← printRow_pieces_of_loopless hl, substitute_printRow values hrow.loose,
    strip_printRow_eq_self_iff (hrow.fill hbound).loose, innersOf_map_fill, List.filter_eq_nil_iff,
    extract_print h, ← trim_innersOf_pieces hl hshown]
  have hvalue : ∀ w, ¬ (boundValue? values w).isNone = true ↔
      ∃ text, Json.lookup? (String.ofList (trim w)) values = some text := by
    intro w
    rw [boundValue?, Option.isNone_map, Option.isNone_iff_eq_none]
    exact Option.ne_none_iff_exists'
  simp only [hvalue, List.mem_map, List.mem_eraseDups, forall_exists_index, and_imp,
    forall_apply_eq_imp_iff₂]

/-- A section in another one, and a name that comes twice. -/
theorem extract_needed_nested :
    extract (String.ofList (block ['s'] (piece (.value [' ', 'b']) (block ['t']
      (piece (.value ['a']) nil) nil)) (piece (.value ['b']) nil)).print) = ["b", "a"] ∧
    strip (substitute [("a", "A"), ("b", "B")]
        (resolveBlocks (block ['s'] (piece (.value [' ', 'b']) (block ['t']
          (piece (.value ['a']) nil) nil)) (piece (.value ['b']) nil)).print
            (.object [("blocks", .object [("s", .bool true), ("t", .bool true)])]))) =
      substitute [("a", "A"), ("b", "B")]
        (resolveBlocks (block ['s'] (piece (.value [' ', 'b']) (block ['t']
          (piece (.value ['a']) nil) nil)) (piece (.value ['b']) nil)).print
            (.object [("blocks", .object [("s", .bool true), ("t", .bool true)])])) := by
  obtain ⟨hextract, hneeded⟩ := @extract_needed (block ['s'] (piece (.value [' ', 'b']) (block ['t']
    (piece (.value ['a']) nil) nil)) (piece (.value ['b']) nil)) (by decide +kernel) (by decide)
  have hnames := hextract.trans (by decide +kernel : _ = ["b", "a"])
  refine ⟨hnames, ?_⟩
  have hfree : BraceFreeBindings [("a", "A"), ("b", "B")] := by
    rw [BraceFreeBindings]
    decide +kernel
  rw [hneeded _ _ (by decide +kernel) hfree, hnames]
  simp [Json.lookup?]

end Source

end EmailTemplate.Template
