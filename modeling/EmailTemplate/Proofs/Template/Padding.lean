import EmailTemplate.Proofs.Template.Names
import EmailTemplate.Proofs.Template.Probe
import EmailTemplate.Template.Check

/-! Blanks around the word of a token. Extraction and the values by name do not see them. A loop does:
its own tokens have to be written without. -/

namespace EmailTemplate.Template

open Text

/-! ### Templates as rows -/

namespace Source

/-- The tokens of a template in their order, those of sections and loops included. -/
def row : Source → List Piece
  | nil => []
  | piece p rest => p :: rest.row
  | block name body rest =>
    .value (openerWord name) :: (body.row ++ .value (closerWord name) :: rest.row)
  | loop name body rest =>
    .value (loopWord name) :: (body.row ++ .value ['/', 'e', 'a', 'c', 'h'] :: rest.row)

theorem printRow_row (t : Source) : printRow t.row = t.print := by
  induction t with
  | nil => rfl
  | piece p rest ih => rw [row, printRow_cons, ih, print]
  | block name body rest ihb ihr =>
    rw [row, printRow_cons, printRow_append, printRow_cons, ihb, ihr, print, sectionOpener_eq,
      sectionCloser_eq]
    rfl
  | loop name body rest ihb ihr =>
    rw [row, printRow_cons, printRow_append, printRow_cons, ihb, ihr, print]
    rfl

theorem row_clean {t : Source} (h : t.WellFormed) : CleanRow t.row := by
  induction t with
  | nil => simp [row, CleanRow]
  | piece p rest ih => exact List.forall_mem_cons.mpr ⟨h.1.clean, ih h.2⟩
  | block name body rest ihb ihr =>
    obtain ⟨hname, -, hb, hr⟩ := h
    refine List.forall_mem_cons.mpr ⟨hname.openerWord_braceFree, ?_⟩
    refine List.forall_mem_append.mpr ⟨ihb hb, ?_⟩
    exact List.forall_mem_cons.mpr ⟨hname.closerWord_braceFree, ihr hr⟩
  | loop name body rest ihb ihr =>
    obtain ⟨hname, -, hb, hr⟩ := h
    have hcloser : BraceFree ['/', 'e', 'a', 'c', 'h'] := by decide
    refine List.forall_mem_cons.mpr ⟨hname.loopWord_braceFree, ?_⟩
    refine List.forall_mem_append.mpr ⟨ihb hb, ?_⟩
    exact List.forall_mem_cons.mpr ⟨hcloser, ihr hr⟩

/-! ### Padded tokens -/

/-- Two templates that are alike but for blanks around the words of some tokens, which the first one
does not have. -/
inductive Padded : Source → Source → Prop
  | nil : Padded nil nil
  | piece (p : Piece) {rest rest' : Source} : Padded rest rest' →
    Padded (piece p rest) (piece p rest')
  | token (w : List Char) {rest rest' : Source} : Padded rest rest' →
    Padded (Source.piece (.value (trim w)) rest) (Source.piece (.value w) rest')
  | block (name : List Char) {body body' rest rest' : Source} : Padded body body' →
    Padded rest rest' → Padded (block name body rest) (block name body' rest')
  | loop (name : List Char) {body body' rest rest' : Source} : Padded body body' →
    Padded rest rest' → Padded (loop name body rest) (loop name body' rest')

/-- Somewhere in a loop over the list the token of the word is padded. -/
def PadsIn (list w : List Char) : Option (List Char) → Source → Source → Prop
  | place, piece p rest, piece p' rest' =>
    (place = some list ∧ p = .value w ∧ p' ≠ p) ∨ PadsIn list w place rest rest'
  | place, block _ body rest, block _ body' rest' =>
    PadsIn list w place body body' ∨ PadsIn list w place rest rest'
  | place, loop name body rest, loop _ body' rest' =>
    PadsIn list w (some name) body body' ∨ PadsIn list w place rest rest'
  | _, _, _ => False

end Source

theorem wanted_of_trim {w : List Char} (h : Wanted (trim w)) : Wanted w := by
  obtain ⟨hfree, hne, hopen, hclose⟩ := h
  rw [trim_trim] at hne hopen hclose
  obtain ⟨b, b', hb, hb', hw⟩ := exists_blanks_around_trim w
  refine ⟨?_, hne, hopen, hclose⟩
  rw [hw, braceFree_append, braceFree_append]
  exact ⟨braceFree_of_isBlank hb, hfree, braceFree_of_isBlank hb'⟩

namespace Source.Padded

variable {t t' : Source}

theorem blockNames (h : Padded t t') : t'.blockNames = t.blockNames := by
  induction h with
  | nil => rfl
  | piece p _ ih => exact ih
  | token w _ ih => exact ih
  | block name _ _ ihb ihr => rw [Source.blockNames, Source.blockNames, ihb, ihr]
  | loop name _ _ ihb ihr => rw [Source.blockNames, Source.blockNames, ihb, ihr]

theorem loopless (h : Padded t t') (hl : t.Loopless) : t'.Loopless := by
  induction h with
  | nil => trivial
  | piece p _ ih => exact ih hl
  | token w _ ih => exact ih hl
  | block name _ _ ihb ihr => exact ⟨ihb hl.1, ihr hl.2⟩
  | loop name _ _ => exact hl.elim

theorem wellFormed (h : Padded t t') (ht : t.WellFormed) : t'.WellFormed := by
  induction h with
  | nil => trivial
  | piece p _ ih => exact ⟨ht.1, ih ht.2⟩
  | token w _ ih => exact ⟨wanted_of_trim ht.1, ih ht.2⟩
  | block name hb _ ihb ihr =>
    obtain ⟨hname, hnot, hbody, hrest⟩ := ht
    exact ⟨hname, hb.blockNames ▸ hnot, ihb hbody, ihr hrest⟩
  | loop name hb _ ihb ihr =>
    obtain ⟨hname, hl, hbody, hrest⟩ := ht
    exact ⟨hname, hb.loopless hl, ihb hbody, ihr hrest⟩

/-! ### Extraction -/

/-- The words of the tokens of a row, blanks aside. -/
def trimmedWords (row : List Piece) : List (List Char) := row.filterMap fun p => match p with
  | .text _ => none
  | .value w => some (trim w)

theorem trimmedWords_row (h : Padded t t') : trimmedWords t'.row = trimmedWords t.row := by
  induction h with
  | nil => rfl
  | piece p _ ih =>
    simp only [row, trimmedWords, List.filterMap_cons] at ih ⊢
    rw [ih]
  | token w _ ih =>
    simp only [row, trimmedWords, List.filterMap_cons, trim_trim] at ih ⊢
    rw [ih]
  | block name _ _ ihb ihr =>
    simp only [row, trimmedWords, List.filterMap_cons, List.filterMap_append] at ihb ihr ⊢
    rw [ihb, ihr]
  | loop name _ _ ihb ihr =>
    simp only [row, trimmedWords, List.filterMap_cons, List.filterMap_append] at ihb ihr ⊢
    rw [ihb, ihr]

theorem extract_eq (h : Padded t t') (ht : t.WellFormed) :
    extract (String.ofList t'.print) = extract (String.ofList t.print) := by
  have hwords : collect _ (printRow t.row) = trimmedWords t.row :=
    collect_printRow (row_clean ht).loose
  have hwords' : collect _ (printRow t'.row) = trimmedWords t'.row :=
    collect_printRow (row_clean (h.wellFormed ht)).loose
  simp only [extract, placeholderNames, String.toList_ofList, ← printRow_row, hwords, hwords',
    h.trimmedWords_row]

end Source.Padded

namespace Source

theorem renderHtml_print {t : Source} (h : t.WellFormed) {data : Json.Value}
    (hd : data.BraceFree) : renderHtml t.print data = t.eval data none := by
  have hloops := expandLoops_shown hd h []
  rw [List.append_nil, ← resolveBlocks_print h] at hloops
  have hrest : expandLoops [] data = [] := rfl
  rw [renderHtml, hloops, hrest, List.append_nil, strip_substitute_printRow hd (pieces_clean hd h),
    printRow_filled_pieces h (.inl rfl)]

theorem render_eq_iff {t t' : Source} (h : t.WellFormed) (h' : t'.WellFormed) {data : Json.Value}
    (hd : data.BraceFree) : (render (String.ofList t'.print) data).html =
      (render (String.ofList t.print) data).html ↔ t'.eval data none = t.eval data none := by
  rw [render, render, String.toList_ofList, String.toList_ofList, renderHtml_print h hd,
    renderHtml_print h' hd, String.ofList_inj]

/-- A text or a token gives its part before the rest. -/
theorem eval_piece (data : Json.Value) (turn : Option Turn) (p : Piece) :
    ∃ u, ∀ rest : Source, (piece p rest).eval data turn = u ++ rest.eval data turn := by
  cases p with
  | text s => exact ⟨s, fun rest => rfl⟩
  | value w => exact ⟨valueOf data turn w, fun rest => rfl⟩

theorem Padded.eval_eq {t t' : Source} (h : Padded t t') (ht : t.WellFormed) {data : Json.Value}
    {turn : Option Turn} (hname : ∀ u ∈ turn, IsName u.list)
    (hpads : ∀ list w, PadsIn list w (turn.map Turn.list) t t' → ¬ OfTurn list w) :
    t'.eval data turn = t.eval data turn := by
  induction h generalizing turn with
  | nil => rfl
  | piece p _ ih =>
    have hrest := ih ht.2 hname fun list w hw => hpads list w (.inr hw)
    obtain ⟨u, hu⟩ := eval_piece data turn p
    rw [hu, hu, hrest]
  | token w _ ih =>
    have hrest := ih ht.2 hname fun list v hv => hpads list v (.inr hv)
    have hvalue : valueOf data turn (trim w) = valueOf data turn w := by
      refine valueOf_trim fun u hu => ?_
      by_cases hw : trim w = w
      · rw [hw]
      have hplace : turn.map Turn.list = some u.list := by rw [hu, Option.map_some]
      have hnot := hpads u.list (trim w) (.inl ⟨hplace, rfl, by simpa using Ne.symm hw⟩)
      rw [Turn.value?_eq_none hnot, Turn.value?_eq_none fun hturn => hnot (hturn.trim (hname u hu))]
    rw [eval, eval, hrest, hvalue]
  | block name _ _ ihb ihr =>
    obtain ⟨-, -, hb, hr⟩ := ht
    have hbody := ihb hb hname fun list w hw => hpads list w (.inl hw)
    have hrest := ihr hr hname fun list w hw => hpads list w (.inr hw)
    rw [eval, eval, hbody, hrest]
  | loop name _ _ ihb ihr =>
    obtain ⟨hlist, -, hb, hr⟩ := ht
    have hrest := ihr hr hname fun list w hw => hpads list w (.inr hw)
    rw [eval, eval, hrest]
    congr 1
    refine List.flatMap_congr ?_
    rintro ⟨item, index⟩ -
    refine ihb hb ?_ fun list w hw => hpads list w (.inl hw)
    rintro u ⟨⟩
    exact hlist

/-! ### Data that tell padded tokens from others -/

theorem PadsIn.place_of_loopless {list w : List Char} {place : Option (List Char)} {t t' : Source}
    (hl : t.Loopless) (h : PadsIn list w place t t') : place = some list := by
  induction t generalizing t' with
  | nil => exact h.elim
  | piece p rest ih =>
    cases t' with
    | piece p' rest' =>
      rcases h with h | h
      · exact h.1
      · exact ih hl h
    | _ => exact h.elim
  | block name body rest ihb ihr =>
    cases t' with
    | block name' body' rest' =>
      rcases h with h | h
      · exact ihb hl.1 h
      · exact ihr hl.2 h
    | _ => exact h.elim
  | loop name body rest => exact hl.elim

theorem eval_loop_probe {list key : List Char} (hlist : list ≠ "blocks".toList)
    (names : List (List Char)) (turn : Option Turn) (body rest : Source) :
    (loop list body rest).eval (probe names list key) turn =
      body.eval (probe names list key) (some (probeTurn list key)) ++
        rest.eval (probe names list key) turn := by
  rw [eval, itemsOf_probe hlist, if_pos rfl, List.zipIdx_singleton, List.flatMap_singleton]
  rfl

theorem eval_loop_probe_of_ne {list key name : List Char} (hlist : list ≠ "blocks".toList)
    (hn : name ≠ list) (names : List (List Char)) (turn : Option Turn) (body rest : Source) :
    (loop name body rest).eval (probe names list key) turn =
      rest.eval (probe names list key) turn := by
  rw [eval, itemsOf_probe hlist, if_neg hn, List.zipIdx_nil, List.flatMap_nil, List.nil_append]

theorem Padded.length_eval {t t' : Source} {names : List (List Char)} {list key : List Char}
    (h : Padded t t') (ht : t.WellFormed) (hnames : t.blockNames ⊆ names)
    (hlist : list ≠ "blocks".toList) (hkey : trim (list ++ '.' :: key) = list ++ '.' :: key)
    {turn : Option Turn} (hturn : ∀ u ∈ turn, u = probeTurn list key) :
    (t'.eval (probe names list key) turn).length ≤ (t.eval (probe names list key) turn).length ∧
      ∀ w, (probeTurn list key).value? w ≠ none → PadsIn list w (turn.map Turn.list) t t' →
        (t'.eval (probe names list key) turn).length < (t.eval (probe names list key) turn).length := by
  -- No part of the padded template gives more text, so that nothing makes up for a token that is lost.
  induction h generalizing turn with
  | nil => exact ⟨le_refl _, fun w _ hw => hw.elim⟩
  | piece p _ ih =>
    obtain ⟨hle, hlt⟩ := ih ht.2 hnames hturn
    obtain ⟨u, hu⟩ := eval_piece (probe names list key) turn p
    rw [hu, hu, List.length_append, List.length_append]
    refine ⟨by omega, fun w hown hw => ?_⟩
    have hrest := hlt w hown (hw.resolve_left fun h => h.2.2 rfl)
    omega
  | token v _ ih =>
    obtain ⟨hle, hlt⟩ := ih ht.2 hnames hturn
    obtain ⟨hvalue, hless⟩ := length_valueOf_probe names hkey v hturn
    simp only [eval, List.length_append]
    refine ⟨by omega, fun w hown hw => ?_⟩
    rcases hw with ⟨hplace, hword, hne⟩ | hw
    · obtain rfl : trim v = w := by simpa using hword
      have hsome : turn.isSome := by
        rw [← Option.isSome_map (f := Turn.list), hplace, Option.isSome_some]
      have hshort := hless hsome (fun he => hne (by rw [he])) hown
      omega
    · have hrest := hlt w hown hw
      omega
  | block name _ _ ihb ihr =>
    obtain ⟨-, -, hb, hr⟩ := ht
    simp only [Source.blockNames, List.cons_subset, List.append_subset] at hnames
    obtain ⟨hmem, hbnames, hrnames⟩ := hnames
    obtain ⟨hble, hblt⟩ := ihb hb hbnames hturn
    obtain ⟨hrle, hrlt⟩ := ihr hr hrnames hturn
    simp only [eval, isVisible_probe hmem, if_true, List.length_append]
    refine ⟨by omega, fun w hown hw => ?_⟩
    rcases hw with hw | hw
    · have hbody := hblt w hown hw
      omega
    · have hrest := hrlt w hown hw
      omega
  | loop name _ _ ihb ihr =>
    obtain ⟨hname, hl, hb, hr⟩ := ht
    simp only [Source.blockNames, List.append_subset] at hnames
    obtain ⟨hrle, hrlt⟩ := ihr hr hnames.2 hturn
    by_cases hn : name = list
    · subst hn
      have hbturn : ∀ u ∈ some (probeTurn name key), u = probeTurn name key := by simp
      obtain ⟨hble, hblt⟩ := ihb hb hnames.1 hbturn
      rw [eval_loop_probe hlist, eval_loop_probe hlist, List.length_append, List.length_append]
      refine ⟨by omega, fun w hown hw => ?_⟩
      rcases hw with hw | hw
      · have hbody := hblt w hown hw
        omega
      · have hrest := hrlt w hown hw
        omega
    · rw [eval_loop_probe_of_ne hlist hn, eval_loop_probe_of_ne hlist hn]
      refine ⟨hrle, fun w hown hw => ?_⟩
      rcases hw with hw | hw
      · exact absurd (Option.some.inj (hw.place_of_loopless hl)) hn
      · exact hrlt w hown hw

theorem blockNames_braceFree {t : Source} (h : t.WellFormed) : ∀ name ∈ t.blockNames, BraceFree name := by
  induction t with
  | nil => simp [Source.blockNames]
  | piece p rest ih => exact ih h.2
  | block name body rest ihb ihr =>
    obtain ⟨hname, -, hb, hr⟩ := h
    exact List.forall_mem_cons.mpr ⟨hname.braceFree, List.forall_mem_append.mpr ⟨ihb hb, ihr hr⟩⟩
  | loop name body rest ihb ihr =>
    obtain ⟨-, -, hb, hr⟩ := h
    exact List.forall_mem_append.mpr ⟨ihb hb, ihr hr⟩

/-- What is padded in a loop is a word without blanks at its ends. -/
theorem Padded.word {t t' : Source} (h : Padded t t') (ht : t.WellFormed) {list w : List Char}
    {place : Option (List Char)} (hplace : ∀ name ∈ place, IsName name)
    (hw : PadsIn list w place t t') : IsName list ∧ BraceFree w ∧ trim w = w := by
  induction h generalizing place with
  | nil => exact hw.elim
  | piece p _ ih => exact ih ht.2 hplace (hw.resolve_left fun h => h.2.2 rfl)
  | token v _ ih =>
    rcases hw with ⟨hlist, hword, -⟩ | hw
    · obtain rfl : trim v = w := by simpa using hword
      have hwanted : Wanted (trim v) := ht.1
      exact ⟨hplace list hlist, hwanted.1, trim_trim v⟩
    · exact ih ht.2 hplace hw
  | block name _ _ ihb ihr =>
    obtain ⟨-, -, hb, hr⟩ := ht
    rcases hw with hw | hw
    · exact ihb hb hplace hw
    · exact ihr hr hplace hw
  | loop name _ _ ihb ihr =>
    obtain ⟨hname, -, hb, hr⟩ := ht
    rcases hw with hw | hw
    · refine ihb hb ?_ hw
      rintro _ ⟨⟩
      exact hname
    · exact ihr hr hplace hw

/-- Blanks around words do not matter to extraction, and to rendering they do not but where a loop has
a value of its own for the word. There, for any list that does not stand in the place of the sections,
some data are rendered otherwise. -/
theorem extract_render_padded {t t' : Source} (h : t.WellFormed) (hp : Padded t t') :
    extract (String.ofList t'.print) = extract (String.ofList t.print) ∧
    ((∀ list w, PadsIn list w none t t' → ¬ OfTurn list w) →
      ∀ data : Json.Value, data.BraceFree → (render (String.ofList t'.print) data).html =
        (render (String.ofList t.print) data).html) ∧
    (∀ list w, PadsIn list w none t t' → OfTurn list w → list ≠ "blocks".toList →
      ∃ data : Json.Value, data.BraceFree ∧ (render (String.ofList t'.print) data).html ≠
        (render (String.ofList t.print) data).html) := by
  have h' := hp.wellFormed h
  refine ⟨hp.extract_eq h, fun hpads data hd => ?_, fun list w hpads hturn hlist => ?_⟩
  · exact (render_eq_iff h h' hd).mpr (hp.eval_eq h (by simp) hpads)
  · obtain ⟨hname, hw, htrim⟩ := hp.word h (by simp) hpads
    obtain ⟨key, hkey, htoken, hown⟩ := exists_key_of_turn hname hw htrim hturn
    have hd := probe_braceFree (blockNames_braceFree h) hname.braceFree hkey
    refine ⟨probe t.blockNames list key, hd, fun he => ?_⟩
    have houtside : ∀ u ∈ (none : Option Turn), u = probeTurn list key := by simp
    have hlength := (hp.length_eval h (List.Subset.refl _) hlist htoken houtside).2 w hown hpads
    rw [(render_eq_iff h h' hd).mp he] at hlength
    exact Nat.lt_irrefl _ hlength

/-- A token in a loop that is not of its list. -/
theorem extract_render_padded_letter :
    extract (String.ofList (loop ['l']
      (piece (.value ['l', '.', 'k']) (piece (.value [' ', 'y', ' ']) nil)) nil).print) = ["l.k", "y"] ∧
    (render (String.ofList (loop ['l']
      (piece (.value ['l', '.', 'k']) (piece (.value [' ', 'y', ' ']) nil)) nil).print)
        (.object [("l", .array [.object [("k", .string "K")]]), ("y", .string "Y")])).html = "KY" := by
  have hpadded : Padded
      (loop ['l'] (piece (.value ['l', '.', 'k']) (piece (.value (trim [' ', 'y', ' '])) nil)) nil)
      (loop ['l'] (piece (.value ['l', '.', 'k']) (piece (.value [' ', 'y', ' ']) nil)) nil) :=
    .loop _ (.piece _ (.token _ .nil)) .nil
  obtain ⟨hextract, hrender, -⟩ := extract_render_padded (by decide +kernel) hpadded
  have hhtml := hrender ?_ (.object [("l", .array [.object [("k", .string "K")]]), ("y", .string "Y")])
    (by decide +kernel)
  · exact ⟨hextract.trans (by decide +kernel), hhtml.trans (by decide +kernel)⟩
  · intro list w hw
    simp only [PadsIn, Option.some.injEq, Piece.value.injEq, ne_eq, not_true_eq_false, and_false,
      or_false, false_or] at hw
    obtain ⟨rfl, rfl, -⟩ := hw
    decide +kernel

/-- A field and the index, with a blank before and behind. -/
theorem not_extract_render_padded :
    ¬ ∀ (t t' : Source) (data : Json.Value), t.WellFormed → Padded t t' → data.BraceFree →
      (render (String.ofList t'.print) data).html = (render (String.ofList t.print) data).html := by
  intro h
  have hlost := h
    (loop ['l'] (piece (.value (trim " l.k ".toList)) (piece (.value (trim " @index".toList)) nil)) nil)
    (loop ['l'] (piece (.value " l.k ".toList) (piece (.value " @index".toList) nil)) nil)
    (.object [("l", .array [.object [("k", .string "A")]])]) (by decide +kernel)
    (.loop _ (.token _ (.token _ .nil)) .nil) (by decide +kernel)
  revert hlost
  decide +kernel

end Source

end EmailTemplate.Template
