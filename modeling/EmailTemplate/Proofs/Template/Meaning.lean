import EmailTemplate.Proofs.Template.Expansion
import EmailTemplate.Template.Render

/-! Rendering gives a well-formed template its meaning, pass by pass. -/

namespace EmailTemplate.Template

open Text

/-! ### Tokens of values are not marks -/

/-- A token of a value does not begin like one of a section or a loop. -/
theorem Wanted.head_ne {k : Char} (hk : k = '#' ∨ k = '/') {inner : List Char} (h : Wanted inner) :
    inner.head? ≠ some k := by
  obtain ⟨-, -, hopen, hclose⟩ := h
  intro he
  obtain ⟨s, rfl⟩ := List.head?_eq_some_iff.mp he
  have hblank : isBlank k = false := by
    rcases hk with rfl | rfl <;> decide
  have htrim : (trim (k :: s)).head? = some k := by
    rw [trim, trimLeft, List.dropWhile_cons_of_neg (by simp [hblank]), trimRight_cons hblank,
      List.head?_cons]
  rcases hk with rfl | rfl
  · exact hopen htrim
  · exact hclose htrim

theorem not_mark_prefix_token {k : Char} (hk : k ≠ '}') {m w s : List Char}
    (hw : w.head? ≠ some k) : ¬ openBraces ++ k :: m <+: token w ++ s := by
  intro h
  rw [token_append, openBraces, List.cons_append, List.cons_append, List.nil_append,
    List.cons_prefix_cons, List.cons_prefix_cons] at h
  cases w with
  | nil => exact hk (List.cons_prefix_cons.mp h.2.2).1
  | cons c w => exact hw (congrArg some (List.cons_prefix_cons.mp h.2.2).1.symm)

theorem Piece.WellFormed.clean {p : Piece} (h : p.WellFormed) : p.Clean := by
  cases p with
  | text s => exact h
  | value inner => exact h.1

/-- No token of a section or a loop begins in a text or in a token of a value. -/
theorem Piece.WellFormed.passes {p : Piece} (h : p.WellFormed) {k : Char} (hk : k = '#' ∨ k = '/')
    (m s : List Char) : Passes (openBraces ++ k :: m) p.print s := by
  cases p with
  | text t => exact Passes.of_not_mem (BraceFree.open_not_mem h) s
  | value inner =>
    have hne : k ≠ '}' := by
      rcases hk with rfl | rfl <;> decide
    exact passes_token h.1 (not_mark_prefix_token hne (Wanted.head_ne hk h))

namespace Source

/-! ### Sections -/

/-- Without its sections a template has no token of a section. -/
theorem passes_plain {k : Char} {m : List Char} (hk : k = '#' ∨ k = '/')
    (hm : m = ['b', 'l', 'o', 'c', 'k', ':']) {t : Source} (h : t.WellFormed) (s : List Char) :
    Passes (openBraces ++ k :: m) t.outline.plain s := by
  have hfree : '}' ∉ k :: m := by
    rcases hk with rfl | rfl <;> subst hm <;> decide
  induction t generalizing s with
  | nil => exact Passes.nil _ _
  | piece p rest ih =>
    rw [outline, Outline.ofChars_plain]
    exact (h.1.passes hk m _).append (ih h.2 s)
  | block name body rest ihb ihr =>
    obtain ⟨-, -, hb, hr⟩ := h
    exact (ihb hb _).append (ihr hr s)
  | loop name body rest ihb ihr =>
    obtain ⟨hname, -, hb, hr⟩ := h
    have hopener : ∀ s, Passes (openBraces ++ k :: m) (loopOpener name) s := fun s => by
      refine passes_token hname.loopWord_braceFree ?_
      rw [openBraces_append_prefix_token_iff hfree]
      intro hp
      simp [loopWord, hm] at hp
    have hcloser : ∀ s, Passes (openBraces ++ k :: m) loopCloser s := fun s => by
      refine passes_token (by decide) ?_
      rw [openBraces_append_prefix_token_iff hfree]
      intro hp
      simp [hm] at hp
    simp only [outline, Outline.ofChars_plain, Outline.append_plain]
    exact (hopener _).append ((ihb hb _).append ((hcloser _).append (ihr hr s)))

theorem unmarked_plain {t : Source} (h : t.WellFormed) : Outline.Unmarked t.outline.plain := by
  have hopener := (passes_plain (.inl rfl) rfl h []).absent (by simp [openBraces])
  have hcloser := (passes_plain (.inr rfl) rfl h []).absent (by simp [openBraces])
  exact ⟨hopener, hcloser⟩

theorem resolveBlocks_print {t : Source} (h : t.WellFormed) (data : Json.Value) :
    resolveBlocks t.print data = t.outline.shown (isVisible data) := by
  rw [← outline_print]
  exact Outline.resolveSections_print t.outline (outline_scoped h) (unmarked_plain h)

/-! ### Loops -/

/-- What sections and loops leave of a template, its tokens not yet replaced except by loops. -/
def pieces (data : Json.Value) : Source → List Piece
  | nil => []
  | piece p rest => p :: rest.pieces data
  | block name body rest =>
    (if isVisible data name then body.pieces data else []) ++ rest.pieces data
  | loop name body rest =>
    ((itemsOf data name).zipIdx.flatMap fun (item, index) =>
      (body.pieces data).map (Piece.fill (Turn.value? ⟨name, item, index⟩))) ++ rest.pieces data

variable {data : Json.Value}

theorem itemsOf_braceFree (hd : data.BraceFree) {name : List Char} {item : Json.Value}
    (h : item ∈ itemsOf data name) : item.BraceFree := by
  cases hv : data.get? (String.ofList name) with
  | none => simp [itemsOf, hv] at h
  | some value =>
    have hvalue : value.BraceFree := hd.get? hv
    cases value with
    | array items =>
      simp only [itemsOf, hv, Option.bind_some, Json.Value.asArray?, Option.getD_some] at h
      exact hvalue.item h
    | _ => simp [itemsOf, hv, Json.Value.asArray?] at h

theorem pieces_clean (hd : data.BraceFree) {t : Source} (h : t.WellFormed) :
    CleanRow (t.pieces data) := by
  induction t with
  | nil => simp [pieces, CleanRow]
  | piece p rest ih =>
    exact List.forall_mem_cons.mpr ⟨h.1.clean, ih h.2⟩
  | block name body rest ihb ihr =>
    obtain ⟨-, -, hb, hr⟩ := h
    refine List.forall_mem_append.mpr ⟨?_, ihr hr⟩
    split
    · exact ihb hb
    · simp
  | loop name body rest ihb ihr =>
    obtain ⟨-, -, hb, hr⟩ := h
    refine List.forall_mem_append.mpr ⟨?_, ihr hr⟩
    intro p hp
    obtain ⟨⟨item, index⟩, hitem, hp⟩ := List.mem_flatMap.mp hp
    have hfree := itemsOf_braceFree hd (List.fst_mem_of_mem_zipIdx hitem)
    exact (ihb hb).fill (Turn.value?_braceFree hfree) p hp

theorem printRow_pieces_of_loopless {t : Source} (h : t.Loopless) :
    printRow (t.pieces data) = t.outline.shown (isVisible data) := by
  induction t with
  | nil => rfl
  | piece p rest ih => simp [pieces, outline, ih h]
  | block name body rest ihb ihr =>
    simp only [pieces, outline, Outline.shown, printRow_append, ihr h.2]
    split
    · rw [ihb h.1]
    · rfl
  | loop name body rest => exact h.elim

/-- The body of a loop has no closer of its own. -/
theorem passes_loopCloser {t : Source} (h : t.WellFormed) (hl : t.Loopless)
    (visible : List Char → Bool) (s : List Char) :
    Passes loopCloser (t.outline.shown visible) s := by
  induction t generalizing s with
  | nil => exact Passes.nil _ _
  | piece p rest ih =>
    rw [outline, Outline.ofChars_shown]
    exact (h.1.passes (.inr rfl) _ _).append (ih h.2 hl s)
  | block name body rest ihb ihr =>
    obtain ⟨-, -, hb, hr⟩ := h
    rw [outline, Outline.shown]
    cases visible name with
    | false => exact ihr hr hl.2 s
    | true => exact (ihb hb hl.1 _).append (ihr hr hl.2 s)
  | loop name body rest => exact hl.elim

theorem expandItems_body (hd : data.BraceFree) {name : List Char} (hname : IsName name)
    {body : Source} (h : body.WellFormed) (hl : body.Loopless) :
    expandItems name (body.outline.shown (isVisible data)) (data.get? (String.ofList name)) =
      printRow ((itemsOf data name).zipIdx.flatMap fun (item, index) =>
        (body.pieces data).map (Piece.fill (Turn.value? ⟨name, item, index⟩))) := by
  rw [← printRow_pieces_of_loopless hl, printRow_flatMap]
  refine List.flatMap_congr ?_
  rintro ⟨item, index⟩ hitem
  have hfree := itemsOf_braceFree hd (List.fst_mem_of_mem_zipIdx hitem)
  exact expandItem_printRow hname hfree index (pieces_clean hd h).loose

theorem expandLoops_shown (hd : data.BraceFree) {t : Source} (h : t.WellFormed) (s : List Char) :
    expandLoops (t.outline.shown (isVisible data) ++ s) data =
      printRow (t.pieces data) ++ expandLoops s data := by
  induction t generalizing s with
  | nil => rfl
  | piece p rest ih =>
    rw [outline, Outline.ofChars_shown, List.append_assoc,
      expandLoops_passes data (h.1.passes (.inl rfl) _ _), ih h.2, pieces, printRow_cons,
      List.append_assoc]
  | block name body rest ihb ihr =>
    obtain ⟨-, -, hb, hr⟩ := h
    rw [outline, Outline.shown, pieces]
    cases isVisible data name with
    | false => exact ihr hr s
    | true =>
      simp only [if_true, printRow_append, List.append_assoc]
      rw [ihb hb, ihr hr]
  | loop name body rest ihb ihr =>
    obtain ⟨hname, hl, hb, hr⟩ := h
    have hne : loopCloser ≠ [] := token_ne_nil _
    have hsplit : splitFirst? loopCloser (body.outline.shown (isVisible data) ++
        (loopCloser ++ (rest.outline.shown (isVisible data) ++ s))) =
          some (body.outline.shown (isVisible data), rest.outline.shown (isVisible data) ++ s) := by
      rw [splitFirst?_of_passes (passes_loopCloser hb hl _ _), splitFirst?_append hne]
      simp
    simp only [outline, Outline.ofChars_shown, Outline.append_shown, List.append_assoc]
    rw [expandLoops_loop data hname hsplit, expandItems_body hd hname hb hl, ihr hr, pieces,
      printRow_append, List.append_assoc]

/-! ### Values -/

/-- The value of a token, at the last none at all. -/
def filled (data : Json.Value) (turn : Option Turn) : Piece → Piece :=
  Piece.fill fun inner => some (valueOf data turn inner)

theorem strip_substitute_printRow (hd : data.BraceFree) {row : List Piece} (h : CleanRow row) :
    strip (substitute (flatten data) (printRow row)) = printRow (row.map (filled data none)) := by
  have hbound : ∀ inner put, boundValue? (flatten data) inner = some put → BraceFree put := by
    intro inner put hp
    obtain ⟨value, hvalue, rfl⟩ := Option.map_eq_some_iff.mp hp
    exact flatten_braceFree hd _ (Json.mem_of_lookup? hvalue)
  rw [substitute_printRow _ h.loose, strip_printRow (h.fill hbound).loose, List.map_map]
  congr 2
  funext p
  rw [Function.comp_apply, Piece.fill_fill, filled]
  congr 1
  funext inner
  cases hb : boundValue? (flatten data) inner <;> simp [valueOf, hb]

theorem filled_fill (turn : Turn) (p : Piece) :
    filled data none (p.fill turn.value?) = filled data (some turn) p := by
  rw [filled, filled, Piece.fill_fill]
  congr 1
  funext inner
  cases hv : turn.value? inner <;> simp [valueOf, hv]

theorem printRow_filled_pieces {turn : Option Turn} {t : Source} (h : t.WellFormed)
    (hl : turn = none ∨ t.Loopless) :
    printRow ((t.pieces data).map (filled data turn)) = t.eval data turn := by
  induction t generalizing turn with
  | nil => rfl
  | piece p rest ih =>
    rw [pieces, List.map_cons, printRow_cons, ih h.2 hl]
    cases p <;> rfl
  | block name body rest ihb ihr =>
    obtain ⟨-, -, hb, hr⟩ := h
    have hlr : turn = none ∨ rest.Loopless := hl.imp id And.right
    have hlb : turn = none ∨ body.Loopless := hl.imp id And.left
    rw [pieces, List.map_append, printRow_append, ihr hr hlr, eval]
    split
    · rw [ihb hb hlb]
    · rfl
  | loop name body rest ihb ihr =>
    obtain ⟨-, hloopless, hb, hr⟩ := h
    obtain rfl : turn = none := hl.resolve_right id
    rw [pieces, List.map_append, printRow_append, ihr hr (.inl rfl), eval, List.map_flatMap,
      printRow_flatMap]
    congr 1
    refine List.flatMap_congr ?_
    rintro ⟨item, index⟩ -
    dsimp only
    have hbody : printRow ((body.pieces data).map (filled data (some ⟨name, item, index⟩))) = _ :=
      ihb hb (.inr hloopless)
    rw [← hbody, List.map_map]
    congr 2
    funext p
    exact filled_fill _ p

/-- A well-formed template is rendered as it means, whatever data without braces it gets. -/
theorem render_print {t : Source} (h : t.WellFormed) (hd : data.BraceFree) :
    (render (String.ofList t.print) data).html = String.ofList (t.eval data none) := by
  have hloops : expandLoops (resolveBlocks t.print data) data = printRow (t.pieces data) := by
    have hs := expandLoops_shown hd h []
    rw [List.append_nil] at hs
    rw [resolveBlocks_print h, hs]
    exact List.append_nil _
  rw [render, renderHtml, String.toList_ofList, hloops,
    strip_substitute_printRow hd (pieces_clean hd h), printRow_filled_pieces h (.inl rfl)]

theorem render_print_block_of_loop :
    (render (String.ofList (block ['a'] (loop ['x', 's'] (piece (.value ['x', 's', '.', 'k'])
        (block ['b'] (piece (.value ['@', 'i', 'n', 'd', 'e', 'x']) nil)
          (piece (.value [' ', 't']) nil))) nil) nil).print)
      (.object [("blocks", .object [("a", .bool true), ("b", .bool true)]), ("t", .bool false),
        ("xs", .array [.object [("k", .string "one ")], .null])])).html = "one 0false1false" :=
  (render_print (by decide +kernel) (by decide +kernel)).trans (by decide +kernel)

end Source

end EmailTemplate.Template
