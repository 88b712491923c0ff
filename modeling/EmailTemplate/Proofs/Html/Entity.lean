import EmailTemplate.Html.Entity
import Mathlib.Tactic.Common

/-! The table of names is read row by row, and gives back the characters that markup is escaped
with. -/

namespace EmailTemplate.Html

open Text

def addEntity (done : List Entity) (name text : List Char) (code : Nat) : List Entity :=
  ⟨name.reverse, (Char.ofNat code :: text).reverse⟩ :: done

theorem entitiesOf_eq_go (table : String) :
    entitiesOf table = entitiesOf.go addEntity [] true [] [] 0 table.toList := rfl

theorem entities_go_eq_append (done : List Entity) (inName : Bool) (name text : List Char)
    (code : Nat) (s : List Char) : entitiesOf.go addEntity done inName name text code s =
      done.reverse ++ entitiesOf.go addEntity [] inName name text code s := by
  induction s generalizing done inName name text code with
  | nil => simp [entitiesOf.go, addEntity]
  | cons c s ih =>
    simp only [entitiesOf.go]
    split
    · rw [ih, ih (addEntity [] name text code)]
      simp [addEntity]
    · repeat' split
      all_goals exact ih _ _ _ _ _

theorem entities_go_append_blank (done : List Entity) (inName : Bool) (name text : List Char)
    (code : Nat) (s t : List Char) :
    entitiesOf.go addEntity done inName name text code (s ++ ' ' :: t) =
      entitiesOf.go addEntity done inName name text code s ++
        entitiesOf.go addEntity [] true [] [] 0 t := by
  induction s generalizing done inName name text code with
  | nil =>
    have h : entitiesOf.go addEntity done inName name text code (' ' :: t) =
        entitiesOf.go addEntity (addEntity done name text code) true [] [] 0 t := rfl
    rw [List.nil_append, h, entities_go_eq_append]
    rfl
  | cons c s ih =>
    simp only [List.cons_append, entitiesOf.go]
    repeat' split
    all_goals exact ih _ _ _ _ _

theorem entitiesOf_intercalate (row : String) (rows : List String) :
    entitiesOf (" ".intercalate (row :: rows)) = (row :: rows).flatMap entitiesOf := by
  induction rows generalizing row with
  | nil => simp
  | cons next rows ih =>
    rw [List.flatMap_cons, ← ih next]
    simp only [entitiesOf_eq_go]
    rw [← entities_go_append_blank, String.intercalate_cons_cons]
    simp

/-! ### The characters that are escaped -/

/-- The characters that may be written by name, and their names. -/
def namedChars : List (Char × List Char) :=
  [('&', ['a', 'm', 'p']), ('>', ['g', 't']), ('<', ['l', 't']),
    (Char.ofNat 0xa0, ['n', 'b', 's', 'p']), ('"', ['q', 'u', 'o', 't'])]

/-- Those that markup does without. -/
def markNames : List (Char × List Char) :=
  [('&', ['a', 'm', 'p']), ('>', ['g', 't']), ('<', ['l', 't']), ('"', ['q', 'u', 'o', 't'])]

theorem markNames_subset : markNames ⊆ namedChars := by decide

def isMarkName (name : List Char) : Bool := namedChars.any fun m => m.2 == name

/-- The entities among some that have such a name. -/
def marksAmong (es : List Entity) : List (List Char × List Char) :=
  (es.filter fun e => isMarkName e.name).map fun e => (e.name, e.text)

theorem marksAmong_cons (s : List Char) (rows : List String) :
    marksAmong ((String.ofList s :: rows).flatMap entitiesOf) =
      marksAmong (entitiesOf.go addEntity [] true [] [] 0 s) ++
        marksAmong (rows.flatMap entitiesOf) := by
  rw [List.flatMap_cons, marksAmong, List.filter_append, List.map_append, entitiesOf_eq_go,
    String.toList_ofList]
  rfl

section Rows

variable {s : List Char} {rows : List String} {l : List (List Char × List Char)}

theorem prefix_marksAmong_of_none
    (hs : marksAmong (entitiesOf.go addEntity [] true [] [] 0 s) = [])
    (h : l <+: marksAmong (rows.flatMap entitiesOf)) :
    l <+: marksAmong ((String.ofList s :: rows).flatMap entitiesOf) := by
  rwa [marksAmong_cons, hs, List.nil_append]

theorem prefix_marksAmong_of_one {m : List Char × List Char}
    (hs : marksAmong (entitiesOf.go addEntity [] true [] [] 0 s) = [m])
    (h : l <+: marksAmong (rows.flatMap entitiesOf)) :
    m :: l <+: marksAmong ((String.ofList s :: rows).flatMap entitiesOf) := by
  rw [marksAmong_cons, hs]
  exact List.cons_prefix_cons.mpr ⟨rfl, h⟩

end Rows

/-- The table has each of the names once before any is repeated. -/
theorem namedChars_prefix_entities :
    (namedChars.map fun m => (m.2, [m.1])) <+: marksAmong entities := by
  have hrows : ∀ row rows, entityTable = " ".intercalate (row :: rows) →
      entities = (row :: rows).flatMap entitiesOf := by
    intro row rows h
    rw [entities, h, entitiesOf_intercalate]
  rw [hrows _ _ rfl]
  repeat refine prefix_marksAmong_of_none (by decide +kernel) ?_
  refine prefix_marksAmong_of_one (by decide +kernel) ?_
  repeat refine prefix_marksAmong_of_none (by decide +kernel) ?_
  refine prefix_marksAmong_of_one (by decide +kernel) ?_
  repeat refine prefix_marksAmong_of_none (by decide +kernel) ?_
  refine prefix_marksAmong_of_one (by decide +kernel) ?_
  repeat refine prefix_marksAmong_of_none (by decide +kernel) ?_
  refine prefix_marksAmong_of_one (by decide +kernel) ?_
  repeat refine prefix_marksAmong_of_none (by decide +kernel) ?_
  refine prefix_marksAmong_of_one (by decide +kernel) ?_
  exact List.nil_prefix

theorem entity?_eq_of_isMarkName {name : List Char} (h : isMarkName name = true) :
    entity? name = ((marksAmong entities).find? fun m => m.1 == name).map (·.2) := by
  have hname : ∀ e : Entity,
      decide (isMarkName e.name = true ∧ (e.name == name) = true) = (e.name == name) := by
    intro e
    by_cases he : e.name = name
    · simp [he, h]
    · simp [he]
  rw [entity?, marksAmong, List.find?_map, List.find?_filter, Option.map_map]
  simp only [Function.comp_def, hname]

theorem entity?_of_mem_namedChars {c : Char} {name : List Char} (h : (c, name) ∈ namedChars) :
    entity? name = some [c] := by
  have hmark : isMarkName name = true := List.any_eq_true.mpr ⟨(c, name), h, by simp⟩
  obtain ⟨l, hl⟩ := namedChars_prefix_entities
  rw [entity?_eq_of_isMarkName hmark, ← hl, List.find?_append]
  revert h
  simp only [namedChars, List.mem_cons, Prod.mk.injEq, List.not_mem_nil, or_false]
  rintro (⟨rfl, rfl⟩ | ⟨rfl, rfl⟩ | ⟨rfl, rfl⟩ | ⟨rfl, rfl⟩ | ⟨rfl, rfl⟩) <;> rfl

end EmailTemplate.Html
