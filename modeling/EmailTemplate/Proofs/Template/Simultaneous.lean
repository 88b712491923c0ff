import EmailTemplate.Proofs.Template.Braces
import EmailTemplate.Proofs.Template.Dependence
import Mathlib.Tactic.Linarith

/-! The body of a loop is filled field by field. That comes to filling it at once as long as no text
that is put in makes a token of a later field, and at every step only as long. -/

namespace EmailTemplate.Template

open Text

/-! ### One token of a row -/

/-- A row in which the tokens of one word have given way to a text. -/
def fillOne (w put : List Char) (row : List Piece) : List Piece :=
  row.map (Piece.fill fun inner => if inner = w then some put else none)

theorem printRow_fillOne_cons_self (w put : List Char) (row : List Piece) :
    printRow (fillOne w put (.value w :: row)) = put ++ printRow (fillOne w put row) := by
  simp [fillOne, Piece.fill, Piece.print]

theorem printRow_fillOne_cons_of_ne {w : List Char} {p : Piece} (hp : p ≠ .value w)
    (put : List Char) (row : List Piece) :
    printRow (fillOne w put (p :: row)) = p.print ++ printRow (fillOne w put row) := by
  cases p with
  | text s => simp [fillOne, Piece.fill]
  | value v =>
    have hv : v ≠ w := fun he => hp (he ▸ rfl)
    simp [fillOne, Piece.fill, hv]

theorem printRow_fillOne_of_absent {w : List Char} {row : List Piece} (h : .value w ∉ row)
    (put : List Char) : printRow (fillOne w put row) = printRow row := by
  induction row with
  | nil => rfl
  | cons p row ih =>
    obtain ⟨hp, hrow⟩ := not_or.mp (mt List.mem_cons.mpr h)
    rw [printRow_fillOne_cons_of_ne (Ne.symm hp), ih hrow, printRow_cons]

theorem length_printRow_fillOne (w put : List Char) (row : List Piece) :
    (printRow (fillOne w put row)).length + row.count (.value w) * (token w).length =
      (printRow row).length + row.count (.value w) * put.length := by
  induction row with
  | nil => simp [fillOne]
  | cons p row ih =>
    by_cases hp : p = .value w
    · subst hp
      rw [printRow_fillOne_cons_self, List.count_cons_self, Nat.add_mul, Nat.add_mul, printRow_cons,
        Piece.print, List.length_append, List.length_append]
      omega
    · rw [printRow_fillOne_cons_of_ne hp, List.count_cons_of_ne hp, printRow_cons,
        List.length_append, List.length_append]
      omega

theorem eq_of_mul_add_mul_eq {a b m n : Nat} (h : a * m + b * n = a * n + b * m) (hne : m ≠ n) :
    a = b := by
  have hint : (a : Int) * m + b * n = a * n + b * m := by exact_mod_cast h
  have hzero : ((a : Int) - b) * (m - n) = 0 := by linarith
  rcases mul_eq_zero.mp hzero with hab | hmn
  · omega
  · omega

/-- Replacing a token in a text and a row behind it reaches the tokens of the row alone exactly if no
other one is there. The texts may have any braces. -/
theorem replaceAll_append_printRow_iff {w : List Char} (hw : BraceFree w) (put t : List Char)
    (row : List Piece) :
    row.count (.value w) ≤ countAll (token w) (t ++ printRow row) ∧
      (replaceAll (token w) put (t ++ printRow row) = t ++ printRow (fillOne w put row) ↔
        put = token w ∨ countAll (token w) (t ++ printRow row) = row.count (.value w)) := by
  have hne := token_ne_nil w
  induction row generalizing t with
  | nil => simpa [fillOne] using replaceAll_eq_self_iff hne
  | cons p row ih =>
    by_cases hp : p = .value w
    · subst hp
      obtain ⟨hcount, hrest⟩ := ih []
      simp only [List.nil_append] at hcount hrest
      rw [printRow_cons, Piece.print, printRow_fillOne_cons_self, replaceAll_around_token hw,
        countAll_around_token hw, List.count_cons_self]
      refine ⟨by omega, fun he => ?_, fun h => ?_⟩
      · by_cases hput : put = token w
        · exact .inl hput
        have hbefore := length_replaceAll hne put t
        have hbehind := length_replaceAll hne put (printRow row)
        have hfilled := length_printRow_fillOne w put row
        by_cases hsame : (token w).length = put.length
        · rw [hsame, Nat.add_right_cancel_iff] at hbefore
          obtain ⟨ht, hr⟩ := List.append_inj he hbefore
          have htext := ((replaceAll_eq_self_iff hne).mp ht).resolve_left hput
          have hrow := (hrest.mp (List.append_cancel_left hr)).resolve_left hput
          exact .inr (by omega)
        · -- Each text that is put in changes the length alike.
          have hlength := congrArg List.length he
          simp only [List.length_append] at hlength
          have hcounts : countAll (token w) t + countAll (token w) (printRow row) =
              row.count (.value w) := by
            refine eq_of_mul_add_mul_eq ?_ hsame
            rw [Nat.add_mul, Nat.add_mul]
            omega
          exact .inr (by omega)
      · have htext : put = token w ∨ countAll (token w) t = 0 := h.imp_right fun he => by omega
        have hrow : put = token w ∨ countAll (token w) (printRow row) = row.count (.value w) :=
          h.imp_right fun he => by omega
        rw [(replaceAll_eq_self_iff hne).mpr htext, hrest.mpr hrow]
    · rw [printRow_cons, printRow_fillOne_cons_of_ne hp, List.count_cons_of_ne hp,
        ← List.append_assoc, ← List.append_assoc]
      exact ih (t ++ p.print)

theorem replaceAll_printRow_iff {row : List Piece} (h : BraceFreeTokens row) (w put : List Char) :
    replaceAll (token w) put (printRow row) = printRow (fillOne w put row) ↔
      put = token w ∨ countAll (token w) (printRow row) = row.count (.value w) := by
  by_cases hw : BraceFree w
  · simpa using (replaceAll_append_printRow_iff hw put [] row).2
  · have habsent : .value w ∉ row := fun hm => hw (h w hm)
    rw [printRow_fillOne_of_absent habsent, List.count_eq_zero.mpr habsent]
    exact replaceAll_eq_self_iff (token_ne_nil w)

/-! ### One token after the other -/

/-- The words of tokens, each with the text that is put in its place, in the order of the steps. -/
abbrev Steps := List (List Char × List Char)

def putAll (steps : Steps) (text : List Char) : List Char :=
  steps.foldl (fun text (w, put) => replaceAll (token w) put text) text

/-- A row in which the tokens of all steps have given way at once. -/
def fillAll (steps : Steps) (row : List Piece) : List Piece :=
  row.map (Piece.fill fun inner => steps.lookup inner)

/-- At no step there is a token of its word but those of the row, unless it is put in again. -/
def Apart : Steps → List Piece → Prop
  | [], _ => True
  | (w, put) :: steps, row =>
    (put = token w ∨ countAll (token w) (printRow row) = row.count (.value w)) ∧
      Apart steps (fillOne w put row)

instance decidableApart : (steps : Steps) → (row : List Piece) → Decidable (Apart steps row)
  | [], _ => isTrue trivial
  | (w, put) :: steps, row =>
    have := decidableApart steps (fillOne w put row)
    inferInstanceAs (Decidable ((put = token w ∨
      countAll (token w) (printRow row) = row.count (.value w)) ∧ Apart steps (fillOne w put row)))

theorem fillAll_nil (row : List Piece) : fillAll [] row = row := by
  have hnone : (Piece.fill fun inner => List.lookup inner ([] : Steps)) = id := by
    funext p
    exact Piece.fill_none p
  rw [fillAll, hnone, List.map_id]

theorem fillAll_cons (w put : List Char) (steps : Steps) (row : List Piece) :
    fillAll ((w, put) :: steps) row = fillAll steps (fillOne w put row) := by
  rw [fillAll, fillAll, fillOne, List.map_map]
  refine List.map_congr_left fun p _ => ?_
  rw [Function.comp_apply, Piece.fill_fill]
  congr 1
  funext inner
  by_cases hi : inner = w
  · simp [hi]
  · have hb : (inner == w) = false := beq_eq_false_iff_ne.mpr hi
    simp [List.lookup_cons, hi, hb]

theorem apart_iff {steps : Steps} {row : List Piece} (h : BraceFreeTokens row) :
    Apart steps row ↔ ∀ before after, steps = before ++ after →
      putAll before (printRow row) = printRow (fillAll before row) := by
  induction steps generalizing row with
  | nil =>
    refine iff_of_true trivial fun before after hsteps => ?_
    obtain ⟨rfl, -⟩ := List.append_eq_nil_iff.mp hsteps.symm
    rw [fillAll_nil]
    rfl
  | cons step steps ih =>
    obtain ⟨w, put⟩ := step
    have hone : BraceFreeTokens (fillOne w put row) := h.fill _
    rw [Apart, ← replaceAll_printRow_iff h w put, ih hone]
    constructor
    · rintro ⟨hfirst, hrest⟩ before after hsteps
      rcases List.cons_eq_append_iff.mp hsteps with ⟨rfl, -⟩ | ⟨before, rfl, rfl⟩
      · rw [fillAll_nil]
        rfl
      · rw [fillAll_cons, ← hrest before after rfl, ← hfirst]
        rfl
    · intro hall
      have hfirst := hall [(w, put)] steps rfl
      rw [fillAll_cons, fillAll_nil] at hfirst
      refine ⟨hfirst, fun before after hsteps => ?_⟩
      have hlonger := hall ((w, put) :: before) after (by rw [hsteps]; rfl)
      rw [fillAll_cons] at hlonger
      rw [← hlonger, ← hfirst]
      rfl

/-! ### Loops -/

/-- The fields of the item in their order, and then the index. -/
def Turn.steps (turn : Turn) : Steps :=
  (fieldsOf turn.item).map (fun (key, value) =>
    (turn.list ++ '.' :: key.toList, value.stringify.toList)) ++
      [(indexWord, (toString turn.index).toList)]

def turnsOf (data : Json.Value) (name : List Char) : List Turn :=
  (itemsOf data name).zipIdx.map fun (item, index) => ⟨name, item, index⟩

theorem expandItem_eq (turn : Turn) (body : List Char) :
    expandItem turn.list body turn.index turn.item = putAll turn.steps body := by
  rw [putAll, Turn.steps, List.foldl_append, List.foldl_map]
  rfl

theorem lookup_map_field (name : List Char) (members : List (String × Json.Value))
    (inner : List Char) : (members.map fun (key, value) =>
        (name ++ '.' :: key.toList, value.stringify.toList)).lookup inner =
      fieldValue? name members inner := by
  induction members with
  | nil => cases ha : after? (name ++ ['.']) inner <;> simp [fieldValue?, ha, Json.lookup?]
  | cons m rest ih =>
    obtain ⟨key, value⟩ := m
    rw [fieldValue?_cons, ← ih, List.map_cons]
    by_cases hi : inner = name ++ '.' :: key.toList
    · simp [hi]
    · have hb : (inner == name ++ '.' :: key.toList) = false := beq_eq_false_iff_ne.mpr hi
      simp [List.lookup_cons, hi, hb]

theorem Turn.lookup_steps (turn : Turn) (inner : List Char) :
    turn.steps.lookup inner = turn.value? inner := by
  rw [Turn.value?_eq, Turn.steps, List.lookup_append, lookup_map_field]
  by_cases hi : inner = indexWord
  · simp [hi]
  · have hb : (inner == indexWord) = false := beq_eq_false_iff_ne.mpr hi
    simp [List.lookup_cons, hi, hb]

theorem fillAll_steps (turn : Turn) (row : List Piece) :
    fillAll turn.steps row = row.map (Piece.fill turn.value?) := by
  have hvalue : (fun inner => turn.steps.lookup inner) = turn.value? := funext turn.lookup_steps
  rw [fillAll, hvalue]

theorem expandItem_of_apart {turn : Turn} {row : List Piece} (h : BraceFreeTokens row)
    (ha : Apart turn.steps row) : expandItem turn.list (printRow row) turn.index turn.item =
      printRow (row.map (Piece.fill turn.value?)) := by
  have hall := (apart_iff h).mp ha turn.steps [] (List.append_nil _).symm
  rw [expandItem_eq, hall, fillAll_steps]

/-- A step puts in no token and no beginning of one. -/
def LooseStep (step : List Char × List Char) : Prop := '}' ∉ step.1 ∧ Loose step.2

theorem apart_of_loose {steps : Steps} (hs : ∀ step ∈ steps, LooseStep step) {row : List Piece}
    (h : LooseRow row) : Apart steps row := by
  induction steps generalizing row with
  | nil => trivial
  | cons step steps ih =>
    obtain ⟨w, put⟩ := step
    obtain ⟨hw, hput⟩ : LooseStep (w, put) := hs _ List.mem_cons_self
    refine ⟨(replaceAll_printRow_iff h.tokens w put).mp (replaceAll_printRow hw put h), ?_⟩
    refine ih (fun step hstep => hs step (List.mem_cons_of_mem _ hstep)) ?_
    refine h.fill_loose fun inner other _ hother => ?_
    split at hother
    · exact Option.some.inj hother ▸ hput
    · exact absurd hother (by simp)

/-- Two opening braces in a row, or one at the end, are in no field of the item. -/
def LooseItem (item : Json.Value) : Prop :=
  ∀ m ∈ fieldsOf item, '}' ∉ m.1.toList ∧ Loose m.2.stringify.toList

theorem LooseItem.apart {name : List Char} (hname : IsName name) {item : Json.Value}
    (hitem : LooseItem item) (index : Nat) {row : List Piece} (h : LooseRow row) :
    Apart (Turn.steps ⟨name, item, index⟩) row := by
  refine apart_of_loose (fun step hstep => ?_) h
  rcases List.mem_append.mp hstep with hstep | hstep
  · obtain ⟨m, hm, rfl⟩ := List.mem_map.mp hstep
    obtain ⟨hkey, hvalue⟩ := hitem m hm
    refine ⟨?_, hvalue⟩
    simp [hname.braceFree.close_not_mem, hkey]
  · obtain rfl := List.mem_singleton.mp hstep
    have hword : '}' ∉ indexWord := by decide
    exact ⟨hword, (toString_braceFree index).loose⟩

theorem splitFirst?_token {w : List Char} (hw : BraceFree w) {u : List Char}
    (hu : ¬ token w <:+: u) (s : List Char) :
    splitFirst? (token w) (u ++ (token w ++ s)) = some (u, s) := by
  induction u with
  | nil => exact splitFirst?_append (token_ne_nil w) s
  | cons c u ih =>
    rw [List.infix_cons_iff, not_or] at hu
    have hpass : ¬ token w <+: c :: (u ++ (token w ++ s)) :=
      fun h => hu.1 (prefix_of_prefix_append_token hw (List.cons_ne_nil c u) h)
    rw [List.cons_append, splitFirst?_cons_of_not hpass, ih hu.2]
    rfl

/-- The items of a list fill the body of a loop all at once, in any order of their fields, if for each
item no text that is put in makes a token of a later step. For one item the steps give what filling
at once gives, each of them, exactly then. -/
theorem expandLoops_simultaneous {name : List Char} (hname : IsName name) {row : List Piece}
    (hrow : BraceFreeTokens row) (hbody : ¬ loopCloser <:+: printRow row) (data : Json.Value)
    (rest : List Char) :
    ((∀ turn ∈ turnsOf data name, Apart turn.steps row) →
      expandLoops (loopOpener name ++ (printRow row ++ (loopCloser ++ rest))) data =
        ((turnsOf data name).flatMap fun turn => printRow (row.map (Piece.fill turn.value?))) ++
          expandLoops rest data) ∧
    (∀ turn : Turn, Apart turn.steps row ↔ ∀ before after, turn.steps = before ++ after →
      putAll before (printRow row) = printRow (fillAll before row)) ∧
    (LooseRow row → ∀ item index, LooseItem item → Apart (Turn.steps ⟨name, item, index⟩) row) ∧
    (∀ index item item', (∀ key, Json.Value.get? key item = Json.Value.get? key item') →
      Apart (Turn.steps ⟨name, item, index⟩) row → Apart (Turn.steps ⟨name, item', index⟩) row →
        expandItem name (printRow row) index item = expandItem name (printRow row) index item') := by
  refine ⟨fun hturns => ?_, fun turn => apart_iff hrow, fun hloose item index hitem =>
    hitem.apart hname index hloose, fun index item item' hsame ha ha' => ?_⟩
  · have hcloser : BraceFree ['/', 'e', 'a', 'c', 'h'] := by decide
    have hsplit : splitFirst? loopCloser (printRow row ++ (loopCloser ++ rest)) =
        some (printRow row, rest) := splitFirst?_token hcloser hbody rest
    rw [expandLoops_loop data hname hsplit]
    congr 1
    rw [turnsOf, List.flatMap_map]
    refine List.flatMap_congr ?_
    rintro ⟨item, index⟩ hitem
    have hturn : ⟨name, item, index⟩ ∈ turnsOf data name := by
      rw [turnsOf]
      exact List.mem_map_of_mem hitem
    dsimp only
    have hitems := expandItem_of_apart hrow (hturns _ hturn)
    exact hitems
  · have hvalue : Turn.value? ⟨name, item, index⟩ = Turn.value? ⟨name, item', index⟩ := by
      funext inner
      simp only [Turn.value?, hsame]
    have hfirst := expandItem_of_apart hrow ha
    rw [hvalue] at hfirst
    exact hfirst.trans (expandItem_of_apart hrow ha').symm

/-- The second field brings in the token of the first one, which has had its step. -/
theorem expandLoops_later_field :
    expandLoops (loopOpener ['l'] ++ (printRow [.value "l.a".toList, .text ['/'],
        .value "l.b".toList, .value indexWord] ++ (loopCloser ++ ['.'])))
      (.object [("l", .array [.object [("a", .string "A"), ("b", .string (nameToken "l.a"))]])]) =
        "A/".toList ++ (token "l.a".toList ++ "0.".toList) := by
  have hname : IsName ['l'] := by decide
  have hrow : CleanRow [.value "l.a".toList, .text ['/'], .value "l.b".toList, .value indexWord] := by
    decide +kernel
  have h := (expandLoops_simultaneous hname hrow.loose.tokens (by decide +kernel)
    (.object [("l", .array [.object [("a", .string "A"), ("b", .string (nameToken "l.a"))]])])
    ['.']).1 (by decide +kernel)
  exact h.trans (by decide +kernel)

/-- A field with the token of a field that comes after it, and the two in the other order. -/
theorem not_expandLoops_simultaneous :
    (¬ ∀ (name : List Char) (row : List Piece) (data : Json.Value), IsName name →
      (∀ p ∈ row, p.WellFormed) → expandLoops (loopOpener name ++ (printRow row ++ loopCloser)) data =
        (turnsOf data name).flatMap fun turn => printRow (row.map (Piece.fill turn.value?))) ∧
    ¬ ∀ (name : List Char) (row : List Piece) (index : Nat) (m n : String × Json.Value),
      IsName name → (∀ p ∈ row, p.WellFormed) → m.1 ≠ n.1 →
        expandItem name (printRow row) index (.object [m, n]) =
          expandItem name (printRow row) index (.object [n, m]) := by
  constructor
  · intro h
    have hlost := h ['l'] [.value "l.a".toList] (.object [("l", .array
      [.object [("a", .string (nameToken "l.b")), ("b", .string "x")]])]) (by decide)
      (by decide +kernel)
    revert hlost
    decide +kernel
  · intro h
    have hmoved := h ['l'] [.value "l.a".toList] 0 ("a", .string (nameToken "l.b"))
      ("b", .string "x") (by decide) (by decide +kernel) (by decide)
    revert hmoved
    decide +kernel

end EmailTemplate.Template
