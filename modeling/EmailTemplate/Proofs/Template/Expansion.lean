import EmailTemplate.Proofs.Template.Data
import EmailTemplate.Proofs.Template.Source
import EmailTemplate.Proofs.Text.Blank

/-! How loops are recognised and expanded: the opener at the head of a text, the step over a whole
loop, and its body for one item. -/

namespace EmailTemplate.Template

open Text

theorem IsName.loopWord_braceFree {name : List Char} (h : IsName name) :
    BraceFree (loopWord name) := by
  rw [loopWord, braceFree_append]
  exact ⟨by decide, h.braceFree⟩

theorem isBlank_of_isNameChar {c : Char} (h : isNameChar c = true) : isBlank c = false := by
  by_contra hb
  have hblank : isBlank c = true := by simpa using hb
  have hpoint : c ≠ '.' := by
    rintro rfl
    exact hb (by decide)
  have hdash : c ≠ '-' := by
    rintro rfl
    exact hb (by decide)
  simp [isNameChar, isWord_of_isBlank hblank, hpoint, hdash] at h

/-- The words of an opener of a loop: blanks stand before the name and may stand after it. -/
def LoopWord (inner name : List Char) : Prop :=
  IsName name ∧ ∃ b b' : List Char, b ≠ [] ∧ (∀ c ∈ b, isBlank c = true) ∧
    (∀ c ∈ b', isBlank c = true) ∧ inner = ['#', 'e', 'a', 'c', 'h'] ++ (b ++ (name ++ b'))

theorem loopWord_spec {name : List Char} (h : IsName name) : LoopWord (loopWord name) name := by
  refine ⟨h, [' '], [], by simp, ?_, by simp, by simp [loopWord]⟩
  intro c hc
  obtain rfl := List.mem_singleton.mp hc
  decide

theorem braceFree_of_isBlank {b : List Char} (h : ∀ c ∈ b, isBlank c = true) : BraceFree b := by
  rw [braceFree_iff]
  constructor
  · intro hm
    exact absurd (h _ hm) (by decide)
  · intro hm
    exact absurd (h _ hm) (by decide)

theorem LoopWord.braceFree {inner name : List Char} (h : LoopWord inner name) :
    BraceFree inner := by
  obtain ⟨hname, b, b', -, hb, hb', rfl⟩ := h
  simp only [braceFree_append]
  exact ⟨by decide, braceFree_of_isBlank hb, hname.braceFree, braceFree_of_isBlank hb'⟩

theorem loopAt?_token {inner name : List Char} (h : LoopWord inner name) (s : List Char) :
    loopAt? (token inner ++ s) = some (name, s) := by
  obtain ⟨hname, b, b', hne, hb, hb', rfl⟩ := h
  have hs : token (['#', 'e', 'a', 'c', 'h'] ++ (b ++ (name ++ b'))) ++ s =
      loopMark ++ (b ++ (name ++ (b' ++ (closeBraces ++ s)))) := by
    simp [token, loopMark]
  have hempty : name.isEmpty = false := by simp [hname.1]
  have hopen : ∀ t, trimLeft (b ++ (name ++ t)) = name ++ t := by
    intro t
    obtain ⟨c, name, rfl⟩ := List.exists_cons_of_ne_nil hname.1
    have hblank := isBlank_of_isNameChar (hname.2 c (by simp))
    rw [trimLeft, List.dropWhile_append_of_pos hb, List.cons_append,
      List.dropWhile_cons_of_neg (by simp [hblank])]
  have hclose : trimLeft (b' ++ (closeBraces ++ s)) = closeBraces ++ s := by
    rw [trimLeft, List.dropWhile_append_of_pos hb', closeBraces, List.cons_append,
      List.dropWhile_cons_of_neg (by decide)]
  -- The name ends at a blank or at the closing braces.
  have hstop : ∃ c t, b' ++ (closeBraces ++ s) = c :: t ∧ isNameChar c = false := by
    cases b' with
    | nil => exact ⟨'}', '}' :: s, rfl, isNameChar_brace.2⟩
    | cons c b' =>
      refine ⟨c, b' ++ (closeBraces ++ s), rfl, ?_⟩
      by_contra hc
      have hblank := isBlank_of_isNameChar (by simpa using hc)
      simp [hb' c List.mem_cons_self] at hblank
  obtain ⟨c, t, hct, hc⟩ := hstop
  have hlength : (name ++ (c :: t)).length ≠ (b ++ (name ++ (c :: t))).length := by
    have hpos := List.length_pos_iff.mpr hne
    simp only [List.length_append]
    omega
  rw [hct] at hs hclose
  simp only [hs, loopAt?, after?_append, Option.bind_some, hopen, hlength, hempty,
    takeWhile_append_stop hname.2 hc, dropWhile_append_stop hname.2 hc, hclose]
  simp

theorem loopAt?_eq_some {s name rest : List Char} (h : loopAt? s = some (name, rest)) :
    ∃ inner, LoopWord inner name ∧ s = token inner ++ rest := by
  simp only [loopAt?, Option.bind_eq_some_iff] at h
  obtain ⟨t, ht, h⟩ := h
  split at h
  · simp at h
  · next hno =>
    rw [not_or] at hno
    simp only [Option.map_eq_some_iff, Prod.mk.injEq] at h
    obtain ⟨u, hu, rfl, rfl⟩ := h
    have hbefore := List.takeWhile_append_dropWhile (p := isBlank) (l := t)
    have hname := List.takeWhile_append_dropWhile (p := isNameChar) (l := trimLeft t)
    have hafter := List.takeWhile_append_dropWhile (p := isBlank)
      (l := (trimLeft t).dropWhile isNameChar)
    rw [← trimLeft, after?_eq_some_iff.mp hu] at hafter
    rw [← trimLeft] at hbefore
    refine ⟨_, ⟨⟨by simpa using hno.2, fun c hc => List.mem_takeWhile_imp hc⟩,
      t.takeWhile isBlank, ((trimLeft t).dropWhile isNameChar).takeWhile isBlank, fun hnil => ?_,
      fun c hc => List.mem_takeWhile_imp hc, fun c hc => List.mem_takeWhile_imp hc, rfl⟩, ?_⟩
    · rw [hnil, List.nil_append] at hbefore
      exact hno.1 (congrArg List.length hbefore)
    · have htail : t = t.takeWhile isBlank ++ ((trimLeft t).takeWhile isNameChar ++
          (((trimLeft t).dropWhile isNameChar).takeWhile isBlank ++ (closeBraces ++ u))) := by
        rw [hafter, hname, hbefore]
      rw [after?_eq_some_iff.mp ht]
      conv_lhs => rw [htail]
      simp [token, loopMark]

theorem loopStep_eq_none (data : Json.Value) {s : List Char} (h : ¬ loopMark <+: s) :
    loopStep data s = none := by
  rw [loopStep, loopAt?, after?_eq_none_iff.mpr h]
  rfl

theorem expandLoops_passes (data : Json.Value) {u s : List Char} (h : Passes loopMark u s) :
    expandLoops (u ++ s) data = u ++ expandLoops s data :=
  replaceMatches_idle fun v w hvw hw => loopStep_eq_none data (h v w hvw hw)

/-- A loop with a closer gives way to its body for each item. -/
theorem expandLoops_token (data : Json.Value) {inner name : List Char} (h : LoopWord inner name)
    {s body rest : List Char} (hs : splitFirst? loopCloser s = some (body, rest)) :
    expandLoops (token inner ++ s) data =
      expandItems name body (data.get? (String.ofList name)) ++ expandLoops rest data := by
  have hsplit := splitFirst?_eq_some hs
  have htake : (token inner ++ s).take ((token inner ++ s).length - s.length) = token inner := by
    rw [List.length_append, Nat.add_sub_cancel, List.take_left]
  have hshape : token inner ++ s = (token inner ++ body ++ loopCloser) ++ rest := by
    simp [hsplit]
  have hne : token inner ++ body ++ loopCloser ≠ [] := by
    simp [token_ne_nil]
  have hstep : loopStep data (token inner ++ s) =
      some (expandItems name body (data.get? (String.ofList name)),
        (token inner ++ body ++ loopCloser).length) := by
    simp only [loopStep, loopAt?_token h, Option.map_some, htake, hs]
    simp only [List.length_append]
  rw [hshape] at hstep ⊢
  exact replaceMatches_match hne hstep

theorem expandLoops_loop (data : Json.Value) {name : List Char} (hname : IsName name)
    {s body rest : List Char} (hs : splitFirst? loopCloser s = some (body, rest)) :
    expandLoops (loopOpener name ++ s) data =
      expandItems name body (data.get? (String.ofList name)) ++ expandLoops rest data :=
  expandLoops_token data (loopWord_spec hname) hs

/-- An opener without a closer stays. -/
theorem expandLoops_lone (data : Json.Value) {inner name : List Char} (h : LoopWord inner name)
    {s : List Char} (hs : splitFirst? loopCloser s = none) :
    expandLoops (token inner ++ s) data = token inner ++ expandLoops s data := by
  have htake : (token inner ++ s).take ((token inner ++ s).length - s.length) = token inner := by
    rw [List.length_append, Nat.add_sub_cancel, List.take_left]
  refine replaceMatches_match (token_ne_nil inner) ?_
  simp only [loopStep, loopAt?_token h, Option.map_some, htake, hs]

/-- The value of the token of a field, for the fields of an item. -/
def fieldValue? (name : List Char) (members : List (String × Json.Value)) (inner : List Char) :
    Option (List Char) :=
  ((after? (name ++ ['.']) inner).bind fun key => Json.lookup? (String.ofList key) members).map
    (·.stringify.toList)

theorem fieldValue?_cons (name : List Char) (key : String) (value : Json.Value)
    (rest : List (String × Json.Value)) (inner : List Char) :
    fieldValue? name ((key, value) :: rest) inner =
      ((if inner = name ++ '.' :: key.toList then some value.stringify.toList else none) <|>
        fieldValue? name rest inner) := by
  cases ha : after? (name ++ ['.']) inner with
  | none =>
    have hne : inner ≠ name ++ '.' :: key.toList := by
      rintro rfl
      refine after?_eq_none_iff.mp ha ⟨key.toList, by simp⟩
    simp [fieldValue?, ha, hne]
  | some field =>
    have hinner := after?_eq_some_iff.mp ha
    have heq : inner = name ++ '.' :: key.toList ↔ key = String.ofList field := by
      rw [hinner, List.append_assoc, List.append_cancel_left_eq, List.cons_append, List.nil_append,
        List.cons.injEq, ← String.toList_inj, String.toList_ofList]
      simp [eq_comm]
    by_cases hk : key = String.ofList field
    · rw [if_pos (heq.mpr hk)]
      simp [fieldValue?, ha, Json.lookup?, hk]
    · simp [fieldValue?, ha, Json.lookup?, hk, heq]

theorem foldl_replaceAll_printRow {name : List Char} (hname : IsName name)
    {members : List (String × Json.Value)}
    (hm : ∀ m ∈ members, BraceFree m.1.toList ∧ BraceFree m.2.stringify.toList)
    {row : List Piece} (h : LooseRow row) :
    members.foldl (fun text (key, value) =>
        replaceAll (fieldToken name key.toList) value.stringify.toList text) (printRow row) =
      printRow (row.map (Piece.fill (fieldValue? name members))) := by
  induction members generalizing row with
  | nil =>
    have hnone : Piece.fill (fieldValue? name []) = id := by
      funext p
      have hv : fieldValue? name [] = fun _ => none := by
        funext inner
        cases ha : after? (name ++ ['.']) inner <;> simp [fieldValue?, ha, Json.lookup?]
      rw [hv, Piece.fill_none, id]
    rw [hnone, List.map_id, List.foldl_nil]
  | cons m rest ih =>
    obtain ⟨key, value⟩ := m
    obtain ⟨hkey, hvalue⟩ := hm (key, value) List.mem_cons_self
    have hfind : '}' ∉ name ++ '.' :: key.toList := by
      simp [hname.braceFree.close_not_mem, hkey.close_not_mem]
    have hput : ∀ inner put, (if inner = name ++ '.' :: key.toList
        then some value.stringify.toList else none) = some put → BraceFree put := by
      intro inner put hp
      split at hp
      · exact Option.some.inj hp ▸ hvalue
      · exact absurd hp (by simp)
    have hfirst : replaceAll (fieldToken name key.toList) value.stringify.toList (printRow row) =
        printRow _ := replaceAll_printRow hfind _ h
    have hrest := ih (fun n hn => hm n (List.mem_cons_of_mem _ hn)) (h.fill hput)
    rw [List.foldl_cons]
    dsimp only
    rw [hfirst, hrest, List.map_map]
    congr 2
    funext p
    simp only [Function.comp_apply, Piece.fill_fill, ← fieldValue?_cons]

theorem fieldValue?_braceFree {name : List Char} {members : List (String × Json.Value)}
    (hm : ∀ m ∈ members, BraceFree m.1.toList ∧ BraceFree m.2.stringify.toList)
    (inner put : List Char) (h : fieldValue? name members inner = some put) : BraceFree put := by
  simp only [fieldValue?, Option.map_eq_some_iff, Option.bind_eq_some_iff] at h
  obtain ⟨value, ⟨key, -, hlookup⟩, rfl⟩ := h
  exact (hm _ (Json.mem_of_lookup? hlookup)).2

/-- The fields of an item; only an object has any. -/
def fieldsOf : Json.Value → List (String × Json.Value)
  | .object members => members
  | _ => []

theorem fieldsOf_braceFree {item : Json.Value} (h : item.BraceFree) :
    ∀ m ∈ fieldsOf item, BraceFree m.1.toList ∧ BraceFree m.2.stringify.toList := by
  intro m hm
  cases item with
  | object members => exact ⟨h.key hm, stringify_braceFree (h.member hm)⟩
  | _ => simp [fieldsOf] at hm

theorem Turn.value?_eq (turn : Turn) (inner : List Char) :
    turn.value? inner = (fieldValue? turn.list (fieldsOf turn.item) inner <|>
      if inner = indexWord then some (toString turn.index).toList else none) := by
  have hget : ∀ key, turn.item.get? key = Json.lookup? key (fieldsOf turn.item) := by
    intro key
    cases turn.item <;> rfl
  simp only [Turn.value?, fieldValue?, hget]
  cases (after? (turn.list ++ ['.']) inner).bind fun key =>
    Json.lookup? (String.ofList key) (fieldsOf turn.item) <;> rfl

theorem Turn.value?_braceFree {turn : Turn} (h : turn.item.BraceFree) (inner put : List Char)
    (hp : turn.value? inner = some put) : BraceFree put := by
  rw [Turn.value?_eq, Option.orElse_eq_orElse, Option.orElse_eq_or, Option.or_eq_some_iff] at hp
  rcases hp with hp | ⟨-, hp⟩
  · exact fieldValue?_braceFree (fieldsOf_braceFree h) inner put hp
  · split at hp
    · exact Option.some.inj hp ▸ toString_braceFree _
    · exact absurd hp (by simp)

/-- The body of a loop for one item is the body with the values that the turn tells. -/
theorem expandItem_printRow {name : List Char} (hname : IsName name) {item : Json.Value}
    (hitem : item.BraceFree) (index : Nat) {row : List Piece} (h : LooseRow row) :
    expandItem name (printRow row) index item =
      printRow (row.map (Piece.fill (Turn.value? ⟨name, item, index⟩))) := by
  have hfields := fieldsOf_braceFree hitem
  have hfilled := foldl_replaceAll_printRow hname hfields h
  have hloose : LooseRow (row.map (Piece.fill (fieldValue? name (fieldsOf item)))) :=
    h.fill (fieldValue?_braceFree hfields)
  have hindex : '}' ∉ indexWord := by decide
  have hlast := replaceAll_printRow hindex (toString index).toList hloose
  rw [List.map_map] at hlast
  simp only [Function.comp_def, Piece.fill_fill] at hlast
  have hvalue : Turn.value? ⟨name, item, index⟩ = fun inner =>
      fieldValue? name (fieldsOf item) inner <|>
        if inner = indexWord then some (toString index).toList else none := by
    funext inner
    exact Turn.value?_eq _ _
  rw [hvalue, ← hlast, ← hfilled]
  rfl

end EmailTemplate.Template
