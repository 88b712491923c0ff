import EmailTemplate.Landmark.Preheader
import EmailTemplate.Proofs.Html.Numeral
import EmailTemplate.Proofs.PlainText.Names
import EmailTemplate.Proofs.Text.Splitting
import Mathlib.Data.List.Basic

/-! Styles of one declaration. By its number it hides an element if that is as good as zero. By its
wording it also does if the number only begins like a hiding one. -/

namespace EmailTemplate

open Html Text

namespace Html

/-! ### Values as they are declared -/

theorem not_mem_of_blanks {s : List Char} {m : Char} (hs : ∀ c ∈ s, isBlank c = true)
    (hm : isBlank m = false) : m ∉ s := by
  intro h
  rw [hs m h] at hm
  cases hm

theorem dropImportant_mark (s : List Char) :
    dropImportant (importantMark ++ s) = dropImportant s := by
  rw [dropImportant]
  split
  · next rest h =>
    rw [after?_append] at h
    obtain rfl := Option.some.inj h
    rfl
  · next h =>
    rw [after?_append] at h
    cases h

theorem dropImportant_of_not_mem {s : List Char} (h : '!' ∉ s) : dropImportant s = s := by
  rw [dropImportant]
  split
  · next rest hat =>
    rw [after?_eq_some_iff] at hat
    have hmark : '!' ∈ importantMark := by decide
    exact absurd (hat ▸ List.mem_append_left rest hmark) h
  · rfl

theorem trim_append_important {value : List Char} (hvalue : ∀ c ∈ value, isBlank c = false)
    (hne : value ≠ []) (aside : List Char) : trim (value ++ (aside ++ "!important".toList)) =
      value ++ (aside ++ "!important".toList) := by
  refine trim_of_ends ?_ ?_
  · obtain ⟨c, cs, rfl⟩ := List.exists_cons_of_ne_nil hne
    simpa using hvalue c List.mem_cons_self
  · have hlast : "!important".toList = "!importan".toList ++ ['t'] := by decide
    rw [hlast, ← List.append_assoc, ← List.append_assoc, List.getLast?_concat]
    rintro c ⟨⟩
    decide

/-- Blanks and the mark of importance are no part of a value. -/
theorem declaredValue_around {space value aside rest : List Char} (important : Bool)
    (hspace : ∀ c ∈ space, isBlank c = true) (haside : ∀ c ∈ aside, isBlank c = true)
    (hrest : ∀ c ∈ rest, isBlank c = true) (hvalue : ∀ c ∈ value, isBlank c = false ∧ c ≠ '!')
    (hne : value ≠ []) : declaredValue (space ++ (value ++ (aside ++
      ((if important then "!important".toList else []) ++ rest)))) = value := by
  have hsolid : ∀ c ∈ value, isBlank c = false := fun c hc => (hvalue c hc).1
  have hmark : '!' ∉ value ++ aside := by
    rw [List.mem_append]
    rintro (h | h)
    · exact (hvalue _ h).2 rfl
    · exact not_mem_of_blanks haside (by decide) h
  rw [declaredValue]
  cases important with
  | false =>
    have hall : trim (space ++ (value ++ (aside ++ ([] ++ rest)))) = value := by
      rw [List.nil_append, trim_around hspace, trim_of_blankless hsolid]
      exact List.forall_mem_append.mpr ⟨haside, hrest⟩
    simp only [Bool.false_eq_true, if_false, hall]
    rw [dropImportant_of_not_mem, List.reverse_reverse, trim_of_blankless hsolid]
    exact fun h => hmark (List.mem_append_left _ (List.mem_reverse.mp h))
  | true =>
    have hall : trim (space ++ (value ++ (aside ++ ("!important".toList ++ rest)))) =
        value ++ (aside ++ "!important".toList) := by
      rw [← trim_append_important hsolid hne,
        ← @trim_around space (value ++ (aside ++ "!important".toList)) rest hspace hrest]
      simp only [List.append_assoc]
    have hreverse : (value ++ (aside ++ "!important".toList)).reverse =
        importantMark ++ (value ++ aside).reverse := by
      simp [importantMark]
    have htrim : trim (value ++ aside) = value := by
      have haround := @trim_around [] value aside (by simp) haside
      rwa [List.nil_append, trim_of_blankless hsolid] at haround
    simp only [if_true, hall]
    rw [hreverse, dropImportant_mark, dropImportant_of_not_mem, List.reverse_reverse, htrim]
    exact fun h => hmark (List.mem_reverse.mp h)

/-- What a piece between semicolons declares. -/
def readDeclaration? (piece : List Char) : Option (List Char × List Char) :=
  (splitDeclaration? piece).map fun (property, value) => (trim property, declaredValue value)

theorem declarations_ofText (s : List Char) : (InlineStyle.ofText s).declarations =
    (splitBy (· == ';') s).filterMap readDeclaration? := rfl

theorem readDeclaration?_eq_none {piece : List Char} (h : ':' ∉ piece) :
    readDeclaration? piece = none := by
  rw [readDeclaration?, splitDeclaration?, splitFirst?_eq_none_iff.mpr, Option.map_none]
  exact fun hi => h (hi.subset (List.mem_singleton.mpr rfl))

/-! ### Declarations of a number -/

/-- The properties that can hide an element by a number. -/
inductive HidingProperty
  | opacity
  | maxHeight
  | fontSize
  deriving DecidableEq, Repr

def HidingProperty.name : HidingProperty → String
  | opacity => "opacity"
  | maxHeight => "max-height"
  | fontSize => "font-size"

def isUnitChar (c : Char) : Bool := isAsciiLower c || c == '%'

/-- A declaration that gives a property a number, as it is written in lower case. There may be blanks
before the property, on both sides of the colon and behind the value, a unit and the mark of
importance; nothing follows but the end. -/
structure Declaration where
  kind : HidingProperty
  before : List Char
  gap : List Char
  space : List Char
  number : Numeral
  unit : List Char
  aside : List Char
  important : Bool
  after : List Char
  isBlank_of_mem : ∀ c ∈ before ++ (gap ++ (space ++ aside)), isBlank c = true
  isUnitChar_of_mem : ∀ c ∈ unit, isUnitChar c = true
  ends_of_mem : ∀ c ∈ after, isBlank c = true ∨ c = ';'

namespace Declaration

variable (d : Declaration)

def property : List Char := d.before ++ (d.kind.name.toList ++ d.gap)

def value : List Char := d.number.text ++ d.unit

/-- What stands behind the colon if the declaration ends so. -/
def behind (ending : List Char) : List Char :=
  d.space ++ (d.value ++ (d.aside ++ ((if d.important then "!important".toList else []) ++ ending)))

def text : List Char := d.property ++ ':' :: d.behind d.after

/-- The inline style of the element is the declaration, in letters of any case. -/
def Styles (e : Element) : Prop :=
  ∃ style, e.attribute? "style" = some style ∧ lower style.toList = d.text

/-- Nothing stands between the property and the value but the colon and perhaps one space. -/
def Tight : Prop := d.gap = [] ∧ (d.space = [] ∨ d.space = [' '])

instance : Decidable d.Tight := inferInstanceAs (Decidable (_ ∧ _))

/-- What makes the declaration a hiding one: a value that begins like a hiding value, or for an opacity
or a height a number that is taken for zero. -/
def Hides : Prop :=
  (d.Tight ∧ (['0'] <+: d.value ∨ d.kind = .fontSize ∧ "1px".toList <+: d.value)) ∨
    (d.kind ≠ .fontSize ∧ d.number.value ≤ 1 / 2 ^ 1075)

/-! ### Characters -/

theorem solid_of_mem_value {c : Char} (h : c ∈ d.value) :
    isBlank c = false ∧ c ≠ ':' ∧ c ≠ ';' ∧ c ≠ '!' := by
  have hname : ∀ {c}, PlainText.isNameChar c = true →
      isBlank c = false ∧ c ≠ ':' ∧ c ≠ ';' ∧ c ≠ '!' := fun hc =>
    ⟨PlainText.not_blank_of_isNameChar hc, PlainText.ne_of_isNameChar hc (by decide),
      PlainText.ne_of_isNameChar hc (by decide), PlainText.ne_of_isNameChar hc (by decide)⟩
  rcases List.mem_append.mp h with h | h
  · have hc := d.number.isNumberChar_of_mem_text h
    simp only [isNumberChar, Bool.or_eq_true, beq_iff_eq] at hc
    rcases hc with ((hc | rfl) | rfl) | rfl
    · exact hname (by simp [PlainText.isNameChar, hc])
    all_goals decide
  · have hc := d.isUnitChar_of_mem c h
    simp only [isUnitChar, Bool.or_eq_true, beq_iff_eq] at hc
    rcases hc with hc | rfl
    · exact hname (PlainText.isNameChar_of_lower hc)
    · decide

theorem value_ne_nil : d.value ≠ [] := List.append_ne_nil_of_left_ne_nil d.number.text_ne_nil d.unit

theorem isBlank_of_mem_parts : (∀ c ∈ d.before, isBlank c = true) ∧ (∀ c ∈ d.gap, isBlank c = true) ∧
    (∀ c ∈ d.space, isBlank c = true) ∧ ∀ c ∈ d.aside, isBlank c = true := by
  simpa only [List.forall_mem_append] using d.isBlank_of_mem

theorem not_mem_name {m : Char} (hm : PlainText.isNameChar m = false) (hyphen : m ≠ '-') :
    m ∉ d.kind.name.toList := by
  have hall : ∀ c ∈ d.kind.name.toList, PlainText.isNameChar c = true ∨ c = '-' := by
    cases d.kind <;> decide
  intro h
  rcases hall m h with h | h
  · rw [h] at hm
    cases hm
  · exact hyphen h

theorem not_mem_property {m : Char} (hm : PlainText.isNameChar m = false) (hyphen : m ≠ '-')
    (hblank : isBlank m = false) : m ∉ d.property := by
  obtain ⟨hbefore, hgap, -, -⟩ := d.isBlank_of_mem_parts
  simp only [property, List.mem_append, not_or]
  exact ⟨not_mem_of_blanks hbefore hblank, d.not_mem_name hm hyphen, not_mem_of_blanks hgap hblank⟩

theorem not_mem_behind {m : Char} (hm : m ∉ d.value) (hmark : m ∉ "!important".toList)
    (hblank : isBlank m = false) {ending : List Char} (hending : m ∉ ending) :
    m ∉ d.behind ending := by
  obtain ⟨-, -, hspace, haside⟩ := d.isBlank_of_mem_parts
  have himportant : m ∉ (if d.important then "!important".toList else []) := by
    split
    · exact hmark
    · exact List.not_mem_nil
  simp only [behind, List.mem_append, not_or]
  exact ⟨not_mem_of_blanks hspace hblank, hm, not_mem_of_blanks haside hblank, himportant, hending⟩

theorem not_mem_after {m : Char} (hblank : isBlank m = false) (hm : m ≠ ';') : m ∉ d.after := by
  intro h
  rcases d.ends_of_mem m h with h | h
  · rw [hblank] at h
    cases h
  · exact hm h

/-! ### The one declaration -/

theorem readDeclaration?_of_blanks {ending : List Char} (h : ∀ c ∈ ending, isBlank c = true) :
    readDeclaration? (d.property ++ ':' :: d.behind ending) =
      some (d.kind.name.toList, d.value) := by
  obtain ⟨hbefore, hgap, hspace, haside⟩ := d.isBlank_of_mem_parts
  have hcolon : ':' ∉ d.property := d.not_mem_property (by decide) (by decide) (by decide)
  have hname : trim d.property = d.kind.name.toList := by
    rw [property, trim_around hbefore hgap]
    cases d.kind <;> decide
  have hvalue : declaredValue (d.behind ending) = d.value :=
    declaredValue_around d.important hspace haside h
      (fun c hc => ⟨(d.solid_of_mem_value hc).1, (d.solid_of_mem_value hc).2.2.2⟩) d.value_ne_nil
  have hat : splitFirst? [':'] (':' :: d.behind ending) = some ([], d.behind ending) :=
    splitFirst?_append (List.cons_ne_nil _ _) _
  rw [readDeclaration?, splitDeclaration?, splitFirst?_of_passes (Passes.of_not_mem hcolon _), hat,
    Option.map_some, Option.map_some, List.append_nil]
  exact congrArg some (Prod.ext hname hvalue)

theorem ofText_declarations : (InlineStyle.ofText d.text).declarations =
    [(d.kind.name.toList, d.value)] := by
  -- The end goes with the declaration up to a semicolon, behind which there is nothing to read.
  have hends : ∀ c ∈ d.after.takeWhile (· != ';'), isBlank c = true := by
    intro c hc
    refine (d.ends_of_mem c (List.takeWhile_subset _ hc)).resolve_right fun he => ?_
    simpa [he] using List.mem_takeWhile_imp hc
  have hwhole : ∀ c ∈ d.property ++ ':' :: d.behind (d.after.takeWhile (· != ';')),
      (c == ';') = false := by
    intro c hc
    rw [beq_eq_false_iff_ne]
    rintro rfl
    rcases List.mem_append.mp hc with hc | hc
    · exact d.not_mem_property (by decide) (by decide) (by decide) hc
    · refine d.not_mem_behind (fun h => (d.solid_of_mem_value h).2.2.1 rfl) (by decide) (by decide)
        (fun h => ?_) ((List.mem_cons.mp hc).resolve_left (by decide))
      simpa using List.mem_takeWhile_imp h
  have hnone : ∀ rest : List Char, rest ⊆ d.after →
      (splitBy (· == ';') rest).filterMap readDeclaration? = [] := by
    intro rest hrest
    refine List.filterMap_eq_nil_iff.mpr fun piece hp => readDeclaration?_eq_none fun h => ?_
    exact d.not_mem_after (by decide) (by decide) (hrest (mem_of_mem_splitBy hp h).1)
  have htext : d.text = (d.property ++ ':' :: d.behind (d.after.takeWhile (· != ';'))) ++
      d.after.dropWhile (· != ';') := by
    simp only [text, behind, List.append_assoc, List.cons_append, List.takeWhile_append_dropWhile]
  have hpiece := d.readDeclaration?_of_blanks hends
  rw [declarations_ofText, htext]
  cases hr : d.after.dropWhile (· != ';') with
  | nil =>
    rw [List.append_nil, splitBy_of_forall hwhole, List.filterMap_cons_some hpiece,
      List.filterMap_nil]
  | cons c rest =>
    have hc : c = ';' := by
      have hfirst := List.head?_dropWhile_not (· != ';') d.after
      rw [hr] at hfirst
      simpa using hfirst
    have hrest : rest ⊆ d.after := fun x hx =>
      List.dropWhile_subset _ (hr ▸ List.mem_cons_of_mem c hx)
    rw [hc, splitBy_append rfl, splitBy_of_forall hwhole, List.filterMap_append, hnone rest hrest,
      List.filterMap_cons_some hpiece, List.filterMap_nil, List.append_nil]

theorem value?_ofText (property : String) : (InlineStyle.ofText d.text).value? property =
    if d.kind.name = property then some d.value else none := by
  rw [InlineStyle.value?, ofText_declarations, List.reverse_singleton, List.find?_singleton]
  by_cases h : d.kind.name = property
  · simp [h]
  · simp [h, String.toList_inj]

/-! ### What the style mentions -/

theorem suffix_property_iff {p : List Char} (hne : p ≠ []) (hp : ∀ c ∈ p, isBlank c = false) :
    p <:+ d.property ↔ d.gap = [] ∧ p <:+ d.kind.name.toList := by
  obtain ⟨hbefore, hgap, -, -⟩ := d.isBlank_of_mem_parts
  have hclash : ∀ {c}, c ∈ p → isBlank c = true → False := fun hc hblank => by
    rw [hp _ hc] at hblank
    cases hblank
  rw [property]
  constructor
  · rintro ⟨t, ht⟩
    have hempty : d.gap = [] := by
      rcases List.eq_nil_or_concat d.gap with h | ⟨g, b, h⟩
      · exact h
      · obtain ⟨q, x, rfl⟩ := (List.eq_nil_or_concat p).resolve_left hne
        have hlast := congrArg List.getLast? ht
        simp only [h, List.concat_eq_append, ← List.append_assoc, List.getLast?_concat,
          Option.some.injEq] at hlast
        exact (hclash (by simp) (hgap x (by simp [h, hlast]))).elim
    refine ⟨hempty, ?_⟩
    rw [hempty, List.append_nil] at ht
    rcases List.append_eq_append_iff.mp ht with ⟨q, hq, rfl⟩ | ⟨q, -, hname⟩
    · cases q with
      | nil => exact List.suffix_refl _
      | cons c q => exact (hclash (List.mem_append_left _ List.mem_cons_self)
          (hbefore c (by simp [hq]))).elim
    · exact ⟨q, hname.symm⟩
  · rintro ⟨hempty, hname⟩
    rw [hempty, List.append_nil]
    exact hname.trans (List.suffix_append _ _)

/-- The value does not go on in what follows it. -/
theorem prefix_value_append_iff {v : List Char} (hv : ∀ c ∈ v, isBlank c = false ∧ c ≠ ';' ∧ c ≠ '!') :
    v <+: d.value ++ (d.aside ++ ((if d.important then "!important".toList else []) ++ d.after)) ↔
      v <+: d.value := by
  obtain ⟨-, -, -, haside⟩ := d.isBlank_of_mem_parts
  have hblank : ∀ {c}, isBlank c = true → c ∉ v := by
    intro c hc h
    rw [(hv c h).1] at hc
    cases hc
  cases ha : d.aside with
  | cons c rest => exact prefix_append_cons_iff (hblank (haside c (by simp [ha])))
  | nil =>
    cases himportant : d.important with
    | true => exact prefix_append_cons_iff fun h => (hv _ h).2.2 rfl
    | false =>
      cases hafter : d.after with
      | nil => simp
      | cons c rest =>
        have hc := d.ends_of_mem c (by simp [hafter])
        refine prefix_append_cons_iff (hc.elim hblank ?_)
        rintro rfl h
        exact (hv _ h).2.1 rfl

theorem prefix_behind_iff {v : List Char} (hne : v ≠ [])
    (hv : ∀ c ∈ v, isBlank c = false ∧ c ≠ ';' ∧ c ≠ '!') :
    (v <+: d.behind d.after ∨ ' ' :: v <+: d.behind d.after) ↔
      (d.space = [] ∨ d.space = [' ']) ∧ v <+: d.value := by
  obtain ⟨-, -, hspace, -⟩ := d.isBlank_of_mem_parts
  have hvalue := d.prefix_value_append_iff hv
  obtain ⟨x, xs, hx⟩ := List.exists_cons_of_ne_nil d.value_ne_nil
  obtain ⟨y, ys, rfl⟩ := List.exists_cons_of_ne_nil hne
  have hsolid := (hv y List.mem_cons_self).1
  rw [behind]
  cases hs : d.space with
  | nil =>
    have hspaced : ¬ ' ' :: y :: ys <+: d.value ++ (d.aside ++
        ((if d.important then "!important".toList else []) ++ d.after)) := by
      rw [hx, List.cons_append, List.cons_prefix_cons]
      rintro ⟨rfl, -⟩
      have hfirst := (d.solid_of_mem_value (hx ▸ List.mem_cons_self)).1
      revert hfirst
      decide
    rw [List.nil_append, hvalue, or_iff_left hspaced]
    simp
  | cons b space =>
    have hclash : ∀ {b}, b ∈ d.space → ∀ s, ¬ y :: ys <+: b :: s := by
      intro b hb s h
      rw [(List.cons_prefix_cons.mp h).1, hspace b hb] at hsolid
      cases hsolid
    have hfirst := hclash (by simp [hs] : b ∈ d.space)
    rw [List.cons_append, or_iff_right (hfirst _), List.cons_prefix_cons]
    cases space with
    | nil =>
      rw [List.nil_append, hvalue]
      simp [eq_comm]
    | cons b' space =>
      have hsecond := hclash (by simp [hs] : b' ∈ d.space)
      refine iff_of_false (fun h => hsecond _ h.2) fun h => ?_
      simp at h

theorem mentions_ofText {property value : String} (hp : property.toList ≠ [])
    (hp' : ∀ c ∈ property.toList, isBlank c = false) (hv : value.toList ≠ [])
    (hv' : ∀ c ∈ value.toList, isBlank c = false ∧ c ≠ ';' ∧ c ≠ '!') :
    (InlineStyle.ofText d.text).mentions property value = true ↔
      d.Tight ∧ property.toList <:+ d.kind.name.toList ∧ value.toList <+: d.value := by
  have hcolon : ':' ∉ d.property := d.not_mem_property (by decide) (by decide) (by decide)
  have hbehind : ':' ∉ d.behind d.after :=
    d.not_mem_behind (fun h => (d.solid_of_mem_value h).2.1 rfl) (by decide) (by decide)
      (d.not_mem_after (by decide) (by decide))
  have hinfix : ∀ w : List Char, property.toList ++ ':' :: w <:+: d.text ↔
      property.toList <:+ d.property ∧ w <+: d.behind d.after := fun w =>
    infix_mark_iff hcolon hbehind
  have htight : (property ++ ":" ++ value).toList = property.toList ++ ':' :: value.toList := by
    simp
  have hspaced : (property ++ ": " ++ value).toList =
      property.toList ++ ':' :: (' ' :: value.toList) := by
    simp
  rw [InlineStyle.mentions, Bool.or_eq_true, occurs_iff, occurs_iff, htight, hspaced]
  rw [InlineStyle.ofText, hinfix, hinfix, ← and_or_left, d.suffix_property_iff hp hp',
    d.prefix_behind_iff hv hv', Tight]
  tauto

/-- No property has another one at its end. -/
theorem mentions_kind (kind : HidingProperty) {value : String} (hv : value.toList ≠ [])
    (hv' : ∀ c ∈ value.toList, isBlank c = false ∧ c ≠ ';' ∧ c ≠ '!') :
    (InlineStyle.ofText d.text).mentions kind.name value = true ↔
      d.Tight ∧ d.kind = kind ∧ value.toList <+: d.value := by
  have hname : kind.name.toList <:+ d.kind.name.toList ↔ d.kind = kind := by
    cases d.kind <;> cases kind <;> decide
  rw [d.mentions_ofText (by cases kind <;> decide) (by cases kind <;> decide) hv hv', hname]

theorem mentions_display : ¬ (InlineStyle.ofText d.text).mentions "display" "none" = true := by
  rw [d.mentions_ofText (by decide) (by decide) (by decide) (by decide)]
  rintro ⟨-, hname, -⟩
  revert hname
  cases d.kind <;> decide

/-! ### When the style hides -/

theorem isNumberChar_of_isUnitChar {c : Char} (h : isUnitChar c = true) : isNumberChar c = false := by
  rw [Bool.eq_false_iff]
  intro hnumber
  simp only [isNumberChar, Bool.or_eq_true, beq_iff_eq] at hnumber
  rcases hnumber with ((hdigit | rfl) | rfl) | rfl
  · simp only [isUnitChar, isAsciiLower, isAsciiDigit, Bool.or_eq_true, Bool.and_eq_true,
      decide_eq_true_eq, beq_iff_eq, PlainText.char_le_iff] at h hdigit
    have ha : 'a'.toNat = 97 := rfl
    have hnine : '9'.toNat = 57 := rfl
    rcases h with h | rfl
    · omega
    · revert hdigit
      decide
  all_goals
    revert h
    decide

theorem any_value?_ofText (kind : HidingProperty) :
    ((InlineStyle.ofText d.text).value? kind.name).any isZeroLength = true ↔
      d.kind = kind ∧ d.number.value ≤ 1 / 2 ^ 1075 := by
  have hunit : ∀ c ∈ d.unit, isNumberChar c = false := fun c hc =>
    isNumberChar_of_isUnitChar (d.isUnitChar_of_mem c hc)
  have hname : d.kind.name = kind.name ↔ d.kind = kind := by
    cases d.kind <;> cases kind <;> decide
  rw [value?_ofText, ← d.number.isZeroLength_append hunit, ← value, ← hname]
  by_cases h : d.kind.name = kind.name
  · simp [h]
  · simp [h]

theorem hides_ofText : (InlineStyle.ofText d.text).hides = true ↔ d.Hides := by
  have hdisplay : (InlineStyle.ofText d.text).value? "display" = none := by
    rw [value?_ofText, if_neg]
    cases d.kind <;> decide
  have hzero : ∀ kind : HidingProperty, (InlineStyle.ofText d.text).mentions kind.name "0" = true ↔
      d.Tight ∧ d.kind = kind ∧ ['0'] <+: d.value := fun kind =>
    d.mentions_kind kind (by decide) (by decide)
  have hpixel : (InlineStyle.ofText d.text).mentions "font-size" "1px" = true ↔
      d.Tight ∧ d.kind = .fontSize ∧ "1px".toList <+: d.value :=
    d.mentions_kind .fontSize (by decide) (by decide)
  have hheight := d.any_value?_ofText .maxHeight
  have hopacity := d.any_value?_ofText .opacity
  have hzeros := And.intro (hzero .maxHeight) (And.intro (hzero .opacity) (hzero .fontSize))
  simp only [HidingProperty.name] at hheight hopacity hzeros
  simp only [InlineStyle.hides, Bool.or_eq_true, hdisplay, hheight, hopacity, hzeros, hpixel,
    d.mentions_display, Hides]
  cases d.kind <;> simp [and_or_left]

theorem isHidden_iff {e : Element} (h : d.Styles e) : e.isHidden = true ↔ d.Hides := by
  obtain ⟨style, hstyle, htext⟩ := h
  rw [Element.isHidden, Element.inlineStyle, hstyle, Option.getD_some, htext, hides_ofText]

/-- An element whose style is one declaration of a number is hidden just if that begins like a hiding
value or is taken for zero. No other one is found as the preheader. -/
theorem isHidden_exact {d : Declaration} {e : Element} (h : d.Styles e) :
    (e.isHidden = true ↔ d.Hides) ∧
      ∀ doc v, Landmark.preheader? doc = some v → v.element = e → d.Hides := by
  refine ⟨d.isHidden_iff h, ?_⟩
  rintro doc v hv rfl
  obtain ⟨body, -, hfound⟩ := Option.bind_eq_some_iff.mp hv
  have hfits := List.find?_some hfound
  rw [Landmark.isPreheader, Bool.and_eq_true] at hfits
  exact (d.isHidden_iff h).mp hfits.2

/-- One half, with a blank on each side of the colon. -/
theorem isHidden_exact_half :
    (⟨⟨.html, "p"⟩, [⟨.plain, "style", "Opacity : 0.5;"⟩], .nil⟩ : Element).isHidden = false := by
  obtain ⟨hexact, -⟩ := @isHidden_exact
    ⟨.opacity, [], [' '], [' '], .half, [], [], false, [';'], by decide, by decide, by decide⟩
    ⟨⟨.html, "p"⟩, [⟨.plain, "style", "Opacity : 0.5;"⟩], .nil⟩ ⟨_, rfl, by decide +kernel⟩
  rw [Bool.eq_false_iff, ne_eq, hexact]
  rintro (⟨htight, -⟩ | ⟨-, hzero⟩)
  · revert htight
    decide
  · have hvalue : Numeral.half.value = ((5 : Nat) : ℚ) / (10 : Nat) := by
      rw [Numeral.value_half]
      norm_num
    rw [hvalue, Numeral.div_le_one_div_two_pow_iff (by decide)] at hzero
    revert hzero
    decide +kernel

/-- A number above zero, in a unit where one is due, and not the one pixel of a font. -/
def Visible : Prop :=
  0 < d.number.value ∧ match d.kind with
    | .opacity => d.unit = []
    | .maxHeight => d.unit ≠ []
    | .fontSize => d.unit ≠ [] ∧ d.value ≠ "1px".toList

/-- One half that is read as a zero, and a number that is too small for a double. -/
theorem not_isHidden_of_visible :
    (¬ ∀ (d : Declaration) (e : Element), d.Styles e → d.Visible → e.isHidden = false) ∧
      ¬ ∀ (d : Declaration) (e : Element), d.Styles e → d.Visible → ¬ ['0'] <+: d.value →
        e.isHidden = false := by
  constructor
  · intro h
    have hlost := h
      ⟨.opacity, [], [], [], .half, [], [], false, [], by decide, by decide, by decide⟩
      ⟨⟨.html, "p"⟩, [⟨.plain, "style", "opacity:0.5"⟩], .nil⟩ ⟨_, rfl, by decide +kernel⟩
      ⟨by norm_num [Numeral.value_half], rfl⟩
    revert hlost
    decide +kernel
  · intro h
    have hstyles : Styles
        ⟨.opacity, [], [], [], .minute, [], [], false, [], by decide, by decide, by decide⟩
        ⟨⟨.html, "p"⟩, [⟨.plain, "style", String.ofList ("opacity:".toList ++ Numeral.minute.text)⟩],
          .nil⟩ := by
      refine ⟨_, rfl, ?_⟩
      rw [String.toList_ofList]
      decide +kernel
    have hhides := (isHidden_iff _ hstyles).mpr (.inr ⟨by decide, Numeral.minute_pos_and_le.2⟩)
    have hlost := h _ _ hstyles ⟨Numeral.minute_pos_and_le.1, rfl⟩ (by decide +kernel)
    rw [hhides] at hlost
    cases hlost

end Declaration

end Html

end EmailTemplate
